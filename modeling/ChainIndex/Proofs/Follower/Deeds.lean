import ChainIndex.Follower.Step
import Mathlib.Data.List.Induction
import Mathlib.Tactic.Common

/-!
# Deeds

Any number of cycles, starts and stops may be under way on one follower. What they did is a
list of deeds, each with the call that did it, and the two flags of the follower are what
the deeds make of them: `running` is set by a start and cleared by a stop, and `indexing` is
held by the call that claimed it until that call gives it back.

A list of deeds is lawful when each call found the flags as the deeds before had left them,
and steps were taken by the holder of `indexing` alone, right after it saw `running` set.
That much is enough to say what happens behind a stop, with no call in sight.

## Main definitions

* `Deed`, `Deeds`: What a call does in one action, and what all of them did.
* `runningAfter`, `holderAfter`: What some deeds make of the two flags.
* `Allowed`, `Lawful`: Each deed is one that those before it allow.

## Theorems

* `Lawful.idle_since`: A step behind a stop was decided on ahead of it.
* `Lawful.last_step`: Behind a stop there is one step at most.
* `Lawful.started_since`: Behind a stop that found no cycle there is none.
-/

namespace ChainIndex

/-- What a call does in one action. -/
inductive Deed where
  /-- A cycle read `running`. -/
  | saw (running : Bool)
  /-- A cycle tested `indexing`, and set it if it was free. -/
  | claimed (free : Bool)
  /-- A cycle took a step. -/
  | stepped (result : Except Error SyncStep)
  /-- A cycle cleared `indexing`. -/
  | released
  /-- A start set `running`. -/
  | started
  /-- A stop cleared `running`. -/
  | barred
  /-- A stop looked at `indexing`, with or without time left to wait. -/
  | looked (busy timeOver : Bool)

/-- What has happened: deeds, each with the position of the call that did it. -/
abbrev Deeds := List (Nat × Deed)

/-! ## What deeds make of the flags -/

/-- What a deed makes of `running`. -/
def Deed.running : Deed → Bool → Bool
  | .started, _ => true
  | .barred, _ => false
  | _, running => running

/-- What a deed makes of the holder of `indexing`. -/
def Deed.holder (i : Nat) : Deed → Option Nat → Option Nat
  | .claimed true, _ => some i
  | .released, _ => none
  | _, holder => holder

/-- Is `running` set after some deeds? -/
def runningAfter (deeds : Deeds) : Bool :=
  deeds.foldl (fun running deed => deed.2.running running) false

/-- The call that holds `indexing` after some deeds. -/
def holderAfter (deeds : Deeds) : Option Nat :=
  deeds.foldl (fun holder deed => deed.2.holder deed.1 holder) none

/-- The deeds of one call. -/
def deedsOf (i : Nat) (deeds : Deeds) : List Deed :=
  deeds.filterMap fun deed => if deed.1 = i then some deed.2 else none

theorem runningAfter_snoc (deeds : Deeds) (i : Nat) (deed : Deed) :
    runningAfter (deeds ++ [(i, deed)]) = deed.running (runningAfter deeds) := by
  rw [runningAfter, List.foldl_append, ← runningAfter, List.foldl_cons, List.foldl_nil]

theorem holderAfter_snoc (deeds : Deeds) (i : Nat) (deed : Deed) :
    holderAfter (deeds ++ [(i, deed)]) = deed.holder i (holderAfter deeds) := by
  rw [holderAfter, List.foldl_append, ← holderAfter, List.foldl_cons, List.foldl_nil]

theorem deedsOf_append (i : Nat) (deeds more : Deeds) :
    deedsOf i (deeds ++ more) = deedsOf i deeds ++ deedsOf i more :=
  List.filterMap_append

theorem deedsOf_snoc (i : Nat) (deeds : Deeds) (deed : Deed) :
    deedsOf i (deeds ++ [(i, deed)]) = deedsOf i deeds ++ [deed] := by
  rw [deedsOf_append]
  simp [deedsOf]

theorem deedsOf_snoc_of_ne {i j : Nat} (h : j ≠ i) (deeds : Deeds) (deed : Deed) :
    deedsOf i (deeds ++ [(j, deed)]) = deedsOf i deeds := by
  rw [deedsOf_append]
  simp [deedsOf, h]

theorem mem_deedsOf {i : Nat} {deeds : Deeds} {deed : Deed} :
    deed ∈ deedsOf i deeds ↔ (i, deed) ∈ deeds := by
  simp [deedsOf]

/-- Without a start nothing sets `running`. -/
theorem runningAfter_append {deeds more : Deeds} (h : runningAfter deeds = false)
    (hstart : ∀ k, (k, Deed.started) ∉ more) : runningAfter (deeds ++ more) = false := by
  induction more using List.reverseRecOn with
  | nil => rwa [List.append_nil]
  | append_singleton more deed ih =>
      rcases deed with ⟨k, deed⟩
      have hbefore := ih fun k hk => hstart k (List.mem_append_left _ hk)
      rw [← List.append_assoc, runningAfter_snoc, hbefore]
      cases deed with
      | started => exact absurd (by simp) (hstart k)
      | _ => rfl

/-- Whoever holds `indexing` and did nothing lately held it before. -/
theorem holderAfter_of_append {deeds more : Deeds} {i : Nat}
    (h : holderAfter (deeds ++ more) = some i) (hidle : deedsOf i more = []) :
    holderAfter deeds = some i := by
  induction more using List.reverseRecOn with
  | nil => rwa [List.append_nil] at h
  | append_singleton more deed ih =>
      rcases deed with ⟨k, deed⟩
      rw [← List.append_assoc, holderAfter_snoc] at h
      rw [deedsOf_append, List.append_eq_nil_iff] at hidle
      have hk : k ≠ i := fun heq => by simp [deedsOf, heq] at hidle
      refine ih ?_ hidle.1
      -- The last deed, being another's, cannot have made the call the holder.
      cases deed with
      | claimed free =>
          cases free
          · exact h
          · exact absurd (Option.some.inj h) hk
      | released => cases h
      | _ => exact h

/-- The holder claimed `indexing`. -/
theorem claimed_of_holderAfter {deeds : Deeds} {i : Nat} (h : holderAfter deeds = some i) :
    (i, Deed.claimed true) ∈ deeds := by
  induction deeds using List.reverseRecOn with
  | nil => cases h
  | append_singleton deeds deed ih =>
      rcases deed with ⟨k, deed⟩
      rw [holderAfter_snoc] at h
      rw [List.mem_append, List.mem_singleton]
      cases deed with
      | claimed free =>
          cases free with
          | true => exact .inr (by rw [Option.some.inj h])
          | false => exact .inl (ih h)
      | released => cases h
      | _ => exact .inl (ih h)

/-- Where two deeds of a call are among all deeds. -/
theorem of_deedsOf {deeds : Deeds} {i : Nat} {first last : Deed} {inner : List Deed}
    (h : deedsOf i deeds = first :: (inner ++ [last])) :
    ∃ before between after, deeds = before ++ (i, first) :: (between ++ (i, last) :: after) := by
  rcases List.filterMap_eq_cons_iff.mp h with ⟨before, deed, rest, rfl, -, hdeed, hrest⟩
  have hlast : (i, last) ∈ rest := mem_deedsOf.mp (by rw [deedsOf, hrest]; simp)
  rcases List.append_of_mem hlast with ⟨between, after, rfl⟩
  refine ⟨before, between, after, ?_⟩
  rcases deed with ⟨k, deed⟩
  split at hdeed
  · rename_i hk
    rw [show k = i from hk, show deed = first from Option.some.inj hdeed]
  · cases hdeed

/-! ## Lawful deeds -/

/-- A deed of a call is one that the deeds before it allow. -/
def Allowed (before : Deeds) (i : Nat) : Deed → Prop
  | .saw running => running = runningAfter before
  | .claimed free => free = (holderAfter before).isNone
  | .stepped _ => holderAfter before = some i ∧ (deedsOf i before).getLast? = some (.saw true)
  | .released => holderAfter before = some i
  | .looked busy _ => busy = (holderAfter before).isSome
  | .started | .barred => True

/-- Each deed is one that those before it allow. -/
def Lawful (deeds : Deeds) : Prop :=
  ∀ before i deed, before ++ [(i, deed)] <+: deeds → Allowed before i deed

theorem Lawful.nil : Lawful [] := by
  intro before i deed h
  simp at h

theorem Lawful.snoc {deeds : Deeds} (h : Lawful deeds) {i : Nat} {deed : Deed}
    (hallowed : Allowed deeds i deed) : Lawful (deeds ++ [(i, deed)]) := by
  intro before j other hprefix
  rcases List.prefix_concat_iff.mp hprefix with heq | hprefix
  · rcases List.append_inj' heq rfl with ⟨rfl, hlast⟩
    rcases Prod.mk.inj (List.singleton_inj.mp hlast) with ⟨rfl, rfl⟩
    exact hallowed
  · exact h before j other hprefix

theorem Lawful.allowed {deeds before : Deeds} {i : Nat} {deed : Deed} (h : Lawful deeds)
    (after : Deeds) (heq : deeds = before ++ (i, deed) :: after) : Allowed before i deed :=
  h before i deed ⟨after, by rw [heq, List.append_assoc, List.singleton_append]⟩

/-- What another call does changes nothing for a call that holds `indexing` or does not. -/
theorem Allowed.holds_iff {deeds : Deeds} {i j : Nat} {deed : Deed} (h : Allowed deeds i deed)
    (hne : i ≠ j) : deed.holder i (holderAfter deeds) = some j ↔ holderAfter deeds = some j := by
  cases deed with
  | claimed free =>
      cases free with
      | true =>
          rw [Allowed, eq_comm, Option.isNone_iff_eq_none] at h
          simp [Deed.holder, h, hne]
      | false => rfl
  | released =>
      rw [Allowed] at h
      simp [Deed.holder, h, hne]
  | _ => rfl

/-- A step behind a stop was decided on ahead of it: unless a start came in between, whoever
    takes it held `indexing` already, had just seen `running` set, and did nothing since. -/
theorem Lawful.idle_since {deeds before front back : Deeds} {i j : Nat}
    {result : Except Error SyncStep} (h : Lawful deeds)
    (heq : deeds = before ++ (i, .barred) :: (front ++ (j, .stepped result) :: back))
    (hstart : ∀ k, (k, Deed.started) ∉ front) :
    holderAfter before = some j ∧ (deedsOf j before).getLast? = some (.saw true) ∧
      deedsOf j ((i, .barred) :: front) = [] := by
  have hstep : Allowed (before ++ (i, .barred) :: front) j (.stepped result) :=
    h.allowed back (by rw [heq]; simp)
  rcases hstep with ⟨hholder, hlast⟩
  have hidle : deedsOf j ((i, .barred) :: front) = [] := by
    rw [deedsOf_append] at hlast
    rcases List.eq_nil_or_concat (deedsOf j ((i, .barred) :: front)) with hnil | ⟨init, last, hmore⟩
    · exact hnil
    · -- Its last deed would be behind the stop, where nobody sees `running` set.
      rw [hmore, List.concat_eq_append, ← List.append_assoc, List.getLast?_concat,
        Option.some.injEq] at hlast
      have hmem : (j, Deed.saw true) ∈ (i, Deed.barred) :: front := by
        rw [← mem_deedsOf, hmore, hlast]
        simp
      rw [List.mem_cons] at hmem
      rcases hmem with hbarred | hmem
      · cases hbarred
      · rcases List.append_of_mem hmem with ⟨u, v, rfl⟩
        have hsaw : Allowed (before ++ [(i, .barred)] ++ u) j (.saw true) :=
          h.allowed (v ++ (j, .stepped result) :: back) (by rw [heq]; simp)
        have hbarred : runningAfter (before ++ [(i, .barred)]) = false := by
          rw [runningAfter_snoc]
          rfl
        have hfalse : runningAfter (before ++ [(i, .barred)] ++ u) = false :=
          runningAfter_append hbarred fun k hk => hstart k (List.mem_append_left _ hk)
        exact absurd (hsaw.trans hfalse) (by decide)
  refine ⟨holderAfter_of_append hholder hidle, ?_, hidle⟩
  rw [deedsOf_append, hidle, List.append_nil] at hlast
  exact hlast

/-- Behind a stop there is one step at most. -/
theorem Lawful.last_step {deeds before front back : Deeds} {i j : Nat}
    {result : Except Error SyncStep} (h : Lawful deeds)
    (heq : deeds = before ++ (i, .barred) :: (front ++ (j, .stepped result) :: back))
    (hstart : ∀ k, (k, Deed.started) ∉ front) : ∀ k other, (k, Deed.stepped other) ∉ front := by
  intro k other hmem
  rcases h.idle_since heq hstart with ⟨hholder, -, hidle⟩
  rcases List.append_of_mem hmem with ⟨u, v, rfl⟩
  -- An earlier step would be the same call's, which did nothing since the stop.
  have hearlier : holderAfter before = some k ∧ _ :=
    h.idle_since (show deeds = before ++ (i, .barred) ::
        (u ++ (k, .stepped other) :: (v ++ (j, .stepped result) :: back)) by rw [heq]; simp)
      fun k hk => hstart k (List.mem_append_left _ hk)
  have hk : j = k := Option.some.inj (hholder.symm.trans hearlier.1)
  have hdeed : Deed.stepped other ∈ deedsOf j ((i, .barred) :: (u ++ (k, .stepped other) :: v)) :=
    mem_deedsOf.mpr (by simp [hk])
  rw [hidle] at hdeed
  cases hdeed

/-- Once a stop has seen `indexing` clear, there is no step without a start. -/
theorem Lawful.started_since {deeds before between front back : Deeds} {i j : Nat}
    {timeOver : Bool} {result : Except Error SyncStep} (h : Lawful deeds)
    (heq : deeds = before ++ (i, .barred) ::
      (between ++ (i, .looked false timeOver) :: (front ++ (j, .stepped result) :: back))) :
    ∃ k, (k, Deed.started) ∈ between ++ front := by
  by_contra hnone
  have hstart : ∀ k, (k, Deed.started) ∉ between ++ (i, .looked false timeOver) :: front := by
    intro k hk
    refine hnone ⟨k, ?_⟩
    simpa using hk
  have hbarred : deeds = before ++ (i, .barred) ::
      ((between ++ (i, .looked false timeOver) :: front) ++ (j, .stepped result) :: back) := by
    rw [heq]
    simp
  rcases h.idle_since hbarred hstart with ⟨hholder, -, hidle⟩
  -- The one that takes the step held `indexing` all along, also when the stop looked.
  have hheld : holderAfter (before ++ (i, .barred) :: between) = some j := by
    have hstep : Allowed (before ++ (i, .barred) ::
        (between ++ (i, .looked false timeOver) :: front)) j (.stepped result) :=
      h.allowed back (by rw [heq]; simp)
    rw [← List.cons_append, deedsOf_append, List.append_eq_nil_iff] at hidle
    exact holderAfter_of_append (by simpa using hstep.1) hidle.2
  have hlooked : Allowed (before ++ (i, .barred) :: between) i (.looked false timeOver) :=
    h.allowed (front ++ (j, .stepped result) :: back) (by rw [heq]; simp)
  rw [Allowed, hheld] at hlooked
  cases hlooked

end ChainIndex
