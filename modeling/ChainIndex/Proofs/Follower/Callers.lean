import ChainIndex.Follower.Cycle
import ChainIndex.Proofs.Follower.Deeds

/-!
# Calls at the same time

Cycles, starts and stops on one follower act in any order, and what they do to each other
goes through two flags that are read and set at different times. The window to fear is the
one between the first look of a cycle at `running` and its claim of `indexing`: a stop may
clear the one and find the other free in between, and the cycle goes on all the same. It
does no harm, since a cycle looks again before each step.

The deeds of a call tell where it stands, and all deeds together tell what the flags are.
So what a call does next is lawful, and what is known of lawful deeds holds of all calls.

## Main definitions

* `Caller`, `Scene`: A call by where it stands, and all calls on a follower.
* `Happened`: What may have happened, and where that leaves the calls.
* `Acts`: Every action that a call can take.
* `Explains`: What happened explains how things stand.
* `TakeTurns`: What calls on one follower owe to each other.

## Theorems

* `Standing.act`: Where a call stands follows from its own deeds.
* `Explains.acted`: What happened goes on explaining how things stand.
* `Happened.explains`: Calls do what is lawful.
* `cycles_take_turns`: Cycles do not overlap, and a stop stops them.
-/

namespace ChainIndex

/-- A call on a follower, by where it stands. -/
inductive Caller where
  /-- A cycle. -/
  | cycling (point : CyclePoint)
  /-- A start that is about to set `running`. -/
  | starting
  /-- A start at its end. -/
  | started
  /-- A stop. -/
  | stopping (point : StopPoint)

/-- A follower and the calls that were made on it. -/
structure Scene (σ : Type) where
  /-- What the calls share. -/
  shared : Guarded σ
  /-- The calls, in the order in which they were made. -/
  callers : List Caller

section

variable {σ : Type} (step : σ → Except Error SyncStep × σ) (timeout : UInt64)

/-- One step of a follower where its flags are kept beside its world. -/
def stepGuarded (state : Guarded σ) : Except Error SyncStep × Guarded σ :=
  ((step state.world).1, { state with world := (step state.world).2 })

/-- What a cycle does next. -/
def CyclePoint.deed? (state : Guarded σ) : CyclePoint → Option Deed
  | .entering => some (.saw state.flags.running)
  | .claiming => some (.claimed !state.flags.indexing)
  | .checking _ => some (.saw state.flags.running)
  | .stepping _ => some (.stepped (step state.world).1)
  | .releasing _ => some .released
  | .finished _ => none

/-- What a stop does next. -/
def StopPoint.deed? (timeOver : Bool) (state : Guarded σ) : StopPoint → Option Deed
  | .clearing => some .barred
  | .waiting => some (.looked state.flags.indexing timeOver)
  | .finished _ => none

/-- What a call does next, where it stands behind that, and what it leaves to the others. -/
def Caller.act (timeOver : Bool) (state : Guarded σ) :
    Caller → Option (Deed × Caller × Guarded σ)
  | .cycling point => (point.deed? step state).map fun deed =>
    let (point, state) := point.advance (stepGuarded step) state
    (deed, .cycling point, state)
  | .starting => some (.started, .started, start state)
  | .started => none
  | .stopping point => (point.deed? timeOver state).map fun deed =>
    let (point, state) := point.advance timeout timeOver state
    (deed, .stopping point, state)

/-- Calls as they are when they are made. -/
def Caller.new : List Caller :=
  [.cycling .entering, .starting, .stopping .clearing]

/-- What may have happened since a follower was built, and where that leaves the calls on
    it: calls are made and act in any order, and the world may change by itself. -/
inductive Happened : Deeds → Scene σ → Prop where
  /-- The follower was built. -/
  | built (world : σ) : Happened [] ⟨⟨.idle, world⟩, []⟩
  /-- A call was made. -/
  | called {deeds : Deeds} {scene : Scene σ} (caller : Caller) (h : Happened deeds scene)
      (hnew : caller ∈ Caller.new) :
      Happened deeds { scene with callers := scene.callers ++ [caller] }
  /-- A call acted. -/
  | acted {deeds : Deeds} {scene : Scene σ} (i : Nat) (timeOver : Bool) {caller next : Caller}
      {deed : Deed} {shared : Guarded σ} (h : Happened deeds scene)
      (hcaller : scene.callers[i]? = some caller)
      (hact : caller.act step timeout timeOver scene.shared = some (deed, next, shared)) :
      Happened (deeds ++ [(i, deed)]) ⟨shared, scene.callers.set i next⟩
  /-- Something else happened. -/
  | elsewhere {deeds : Deeds} {scene : Scene σ} (world : σ) (h : Happened deeds scene) :
      Happened deeds { scene with shared := { scene.shared with world } }

end

/-! ## Where a call stands -/

/-- What a cycle does between its claim and its release. -/
def Inner (deeds : List Deed) : Prop :=
  ∀ deed ∈ deeds, (∃ running, deed = .saw running) ∨ ∃ result, deed = .stepped result

/-- A call that has done this stands here. -/
def Standing (deeds : List Deed) : Caller → Prop
  | .cycling .entering => deeds = []
  | .cycling .claiming => deeds = [.saw true]
  | .cycling (.checking _) => ∃ inner, Inner inner ∧ deeds = .saw true :: .claimed true :: inner
  | .cycling (.stepping _) => ∃ inner, Inner inner ∧
    deeds = .saw true :: .claimed true :: (inner ++ [.saw true])
  | .cycling (.releasing result) => result ≠ .ok .skipped ∧
    ∃ inner, Inner inner ∧ deeds = .saw true :: .claimed true :: inner
  | .cycling (.finished result) =>
    result = .ok .skipped ∧ (deeds = [.saw false] ∨ deeds = [.saw true, .claimed false]) ∨
    result ≠ .ok .skipped ∧
      ∃ inner, Inner inner ∧ deeds = .saw true :: .claimed true :: (inner ++ [.released])
  | .starting => deeds = []
  | .started => deeds = [.started]
  | .stopping .clearing => deeds = []
  | .stopping .waiting => ∃ looks, deeds = .barred :: looks ∧
    ∀ deed ∈ looks, ∃ timeOver, deed = .looked true timeOver
  | .stopping (.finished result) => ∃ looks busy timeOver,
    deeds = .barred :: (looks ++ [.looked busy timeOver]) ∧
      (∀ deed ∈ looks, ∃ timeOver, deed = .looked true timeOver) ∧
      (busy = false ↔ result = .ok ())

/-- Does a call that stands here hold `indexing`? -/
def Caller.Holds : Caller → Prop
  | .cycling (.checking _) | .cycling (.stepping _) | .cycling (.releasing _) => True
  | _ => False

theorem Inner.snoc {inner : List Deed} (h : Inner inner) {deed : Deed}
    (hdeed : (∃ running, deed = .saw running) ∨ ∃ result, deed = .stepped result) :
    Inner (inner ++ [deed]) := by
  intro other hmem
  rw [List.mem_append, List.mem_singleton] at hmem
  rcases hmem with hinner | rfl
  · exact h other hinner
  · exact hdeed

/-! ## What an action can do -/

section

variable {σ : Type}

/-- Every action that a call can take: where the call stands, what it finds, what it does,
    where it stands then and what it leaves to the others. -/
inductive Acts : Caller → Guarded σ → Deed → Caller → Guarded σ → Prop where
  /-- A cycle may run. -/
  | enter {state : Guarded σ} (hrunning : state.flags.running = true) :
    Acts (.cycling .entering) state (.saw true) (.cycling .claiming) state
  /-- A cycle may not run. -/
  | refuse {state : Guarded σ} (hrunning : state.flags.running = false) :
    Acts (.cycling .entering) state (.saw false) (.cycling (.finished (.ok .skipped))) state
  /-- A cycle takes `indexing`. -/
  | claim {state : Guarded σ} (hindexing : state.flags.indexing = false) :
    Acts (.cycling .claiming) state (.claimed true) (.cycling (.checking 0))
      { state with flags.indexing := true }
  /-- A cycle finds `indexing` taken. -/
  | yield {state : Guarded σ} (hindexing : state.flags.indexing = true) :
    Acts (.cycling .claiming) state (.claimed false) (.cycling (.finished (.ok .skipped))) state
  /-- A cycle may go on. -/
  | goOn {state : Guarded σ} (steps : Nat) (hrunning : state.flags.running = true) :
    Acts (.cycling (.checking steps)) state (.saw true) (.cycling (.stepping steps)) state
  /-- A cycle was stopped. -/
  | giveUp {state : Guarded σ} (steps : Nat) (hrunning : state.flags.running = false) :
    Acts (.cycling (.checking steps)) state (.saw false)
      (.cycling (.releasing (.ok (.completed steps)))) state
  /-- A cycle takes a step that did something. -/
  | work {state : Guarded σ} (steps : Nat) (result : Except Error SyncStep) (world : σ) :
    Acts (.cycling (.stepping steps)) state (.stepped result) (.cycling (.checking (steps + 1)))
      { state with world }
  /-- A cycle takes its last step. -/
  | finish {state : Guarded σ} (steps : Nat) (result : Except Error SyncStep) (world : σ)
      (outcome : Except Error CycleOutcome) (houtcome : outcome ≠ .ok .skipped) :
    Acts (.cycling (.stepping steps)) state (.stepped result) (.cycling (.releasing outcome))
      { state with world }
  /-- A cycle gives `indexing` back. -/
  | release {state : Guarded σ} (outcome : Except Error CycleOutcome) :
    Acts (.cycling (.releasing outcome)) state .released (.cycling (.finished outcome))
      { state with flags.indexing := false }
  /-- A start lets cycles run. -/
  | start {state : Guarded σ} :
    Acts .starting state .started .started { state with flags.running := true }
  /-- A stop keeps cycles from running. -/
  | bar {state : Guarded σ} :
    Acts (.stopping .clearing) state .barred (.stopping .waiting)
      { state with flags.running := false }
  /-- A stop finds no cycle under way. -/
  | leave {state : Guarded σ} (timeOver : Bool) (hindexing : state.flags.indexing = false) :
    Acts (.stopping .waiting) state (.looked false timeOver) (.stopping (.finished (.ok ()))) state
  /-- A stop waits no longer. -/
  | despair {state : Guarded σ} (timeOver : Bool) (e : Error)
      (hindexing : state.flags.indexing = true) :
    Acts (.stopping .waiting) state (.looked true timeOver) (.stopping (.finished (.error e))) state
  /-- A stop goes on waiting. -/
  | wait {state : Guarded σ} (timeOver : Bool) (hindexing : state.flags.indexing = true) :
    Acts (.stopping .waiting) state (.looked true timeOver) (.stopping .waiting) state

variable {step : σ → Except Error SyncStep × σ} {timeout : UInt64}

theorem acts_cycling {point : CyclePoint} {state behind : Guarded σ} {deed : Deed}
    {next : Caller} {timeOver : Bool}
    (h : (Caller.cycling point).act step timeout timeOver state = some (deed, next, behind)) :
    Acts (.cycling point) state deed next behind := by
  cases point with
  | entering =>
      cases hrunning : state.flags.running <;>
        simp only [Caller.act, CyclePoint.deed?, CyclePoint.advance, hrunning, Option.map_some,
          Option.some.injEq, Prod.mk.injEq, if_true, Bool.false_eq_true, if_false] at h <;>
        rcases h with ⟨rfl, rfl, rfl⟩
      · exact .refuse hrunning
      · exact .enter hrunning
  | claiming =>
      cases hindexing : state.flags.indexing <;>
        simp only [Caller.act, CyclePoint.deed?, CyclePoint.advance, hindexing, Option.map_some,
          Option.some.injEq, Prod.mk.injEq, if_true, Bool.false_eq_true, if_false] at h <;>
        rcases h with ⟨rfl, rfl, rfl⟩
      · exact .claim hindexing
      · exact .yield hindexing
  | checking steps =>
      cases hrunning : state.flags.running <;>
        simp only [Caller.act, CyclePoint.deed?, CyclePoint.advance, hrunning, Option.map_some,
          Option.some.injEq, Prod.mk.injEq, if_true, Bool.false_eq_true, if_false] at h <;>
        rcases h with ⟨rfl, rfl, rfl⟩
      · exact .giveUp steps hrunning
      · exact .goOn steps hrunning
  | stepping steps =>
      rcases hstep : step state.world with ⟨outcome | outcome, world⟩
      · simp only [Caller.act, CyclePoint.deed?, CyclePoint.advance, stepGuarded, hstep,
          Option.map_some, Option.some.injEq, Prod.mk.injEq] at h
        rcases h with ⟨rfl, rfl, rfl⟩
        exact .finish steps _ world _ (by simp)
      · cases hwork : outcome.didWork <;>
          simp only [Caller.act, CyclePoint.deed?, CyclePoint.advance, stepGuarded, hstep, hwork,
            Option.map_some, Option.some.injEq, Prod.mk.injEq, if_true, Bool.false_eq_true,
            if_false] at h <;>
          rcases h with ⟨rfl, rfl, rfl⟩
        · exact .finish steps _ world _ (by simp)
        · exact .work steps _ world
  | releasing outcome =>
      simp only [Caller.act, CyclePoint.deed?, CyclePoint.advance, Option.map_some,
        Option.some.injEq, Prod.mk.injEq] at h
      rcases h with ⟨rfl, rfl, rfl⟩
      exact .release outcome
  | finished outcome => cases h

theorem acts_stopping {point : StopPoint} {state behind : Guarded σ} {deed : Deed}
    {next : Caller} {timeOver : Bool}
    (h : (Caller.stopping point).act step timeout timeOver state = some (deed, next, behind)) :
    Acts (.stopping point) state deed next behind := by
  cases point with
  | clearing =>
      simp only [Caller.act, StopPoint.deed?, StopPoint.advance, Option.map_some,
        Option.some.injEq, Prod.mk.injEq] at h
      rcases h with ⟨rfl, rfl, rfl⟩
      exact .bar
  | waiting =>
      cases hindexing : state.flags.indexing <;> cases timeOver <;>
        simp only [Caller.act, StopPoint.deed?, StopPoint.advance, hindexing, Option.map_some,
          Option.some.injEq, Prod.mk.injEq, Bool.not_true, Bool.not_false, if_true,
          Bool.false_eq_true, if_false] at h <;>
        rcases h with ⟨rfl, rfl, rfl⟩
      · exact .leave false hindexing
      · exact .leave true hindexing
      · exact .wait false hindexing
      · exact .despair true _ hindexing
  | finished result => cases h

/-- There are no actions beside these. -/
theorem Caller.acts {caller next : Caller} {state behind : Guarded σ} {deed : Deed}
    {timeOver : Bool}
    (h : caller.act step timeout timeOver state = some (deed, next, behind)) :
    Acts caller state deed next behind := by
  cases caller with
  | cycling point => exact acts_cycling h
  | starting =>
      simp only [Caller.act, ChainIndex.start, Option.some.injEq, Prod.mk.injEq] at h
      rcases h with ⟨rfl, rfl, rfl⟩
      exact .start
  | started => cases h
  | stopping point => exact acts_stopping h

/-- Where a call stands follows from its own deeds. -/
theorem Standing.act {deeds : List Deed} {caller next : Caller} {state behind : Guarded σ}
    {deed : Deed} (h : Standing deeds caller) (hact : Acts caller state deed next behind) :
    Standing (deeds ++ [deed]) next := by
  cases hact with
  | enter => rw [show deeds = [] from h]; rfl
  | refuse => rw [show deeds = [] from h]; exact .inl ⟨rfl, .inl rfl⟩
  | claim => rw [show deeds = [.saw true] from h]; exact ⟨[], by simp [Inner], rfl⟩
  | yield => rw [show deeds = [.saw true] from h]; exact .inl ⟨rfl, .inr rfl⟩
  | goOn =>
      obtain ⟨inner, hinner, rfl⟩ := h
      exact ⟨inner, hinner, rfl⟩
  | giveUp =>
      obtain ⟨inner, hinner, rfl⟩ := h
      exact ⟨by simp, inner ++ [.saw false], hinner.snoc (.inl ⟨_, rfl⟩), rfl⟩
  | work steps result =>
      obtain ⟨inner, hinner, rfl⟩ := h
      exact ⟨inner ++ [.saw true] ++ [.stepped result],
        (hinner.snoc (.inl ⟨_, rfl⟩)).snoc (.inr ⟨_, rfl⟩), by simp⟩
  | finish steps result world outcome houtcome =>
      obtain ⟨inner, hinner, rfl⟩ := h
      exact ⟨houtcome, inner ++ [.saw true] ++ [.stepped result],
        (hinner.snoc (.inl ⟨_, rfl⟩)).snoc (.inr ⟨_, rfl⟩), by simp⟩
  | release outcome =>
      obtain ⟨houtcome, inner, hinner, rfl⟩ := h
      exact .inr ⟨houtcome, inner, hinner, rfl⟩
  | start => rw [show deeds = [] from h]; rfl
  | bar => rw [show deeds = [] from h]; exact ⟨[], rfl, by simp⟩
  | leave timeOver =>
      obtain ⟨looks, rfl, hlooks⟩ := h
      exact ⟨looks, false, timeOver, rfl, hlooks, by simp⟩
  | despair timeOver e =>
      obtain ⟨looks, rfl, hlooks⟩ := h
      exact ⟨looks, true, timeOver, rfl, hlooks, by simp⟩
  | wait timeOver =>
      obtain ⟨looks, rfl, hlooks⟩ := h
      refine ⟨looks ++ [.looked true timeOver], rfl, fun deed hdeed => ?_⟩
      rw [List.mem_append, List.mem_singleton] at hdeed
      rcases hdeed with hlook | rfl
      · exact hlooks deed hlook
      · exact ⟨timeOver, rfl⟩

/-- An action sets and clears `running` as its deed says. -/
theorem Acts.running {caller next : Caller} {state behind : Guarded σ} {deed : Deed}
    (h : Acts caller state deed next behind) :
    behind.flags.running = deed.running state.flags.running := by
  cases h <;> rfl

/-- An action sets and clears `indexing` as its deed says. -/
theorem Acts.indexing {caller next : Caller} {state behind : Guarded σ} {deed : Deed}
    (h : Acts caller state deed next behind) {holder : Option Nat} (i : Nat)
    (hholder : state.flags.indexing = holder.isSome) :
    behind.flags.indexing = (deed.holder i holder).isSome := by
  cases h <;> first | exact hholder | rfl

/-- A call holds `indexing` from its claim to its release. -/
theorem Acts.holds {caller next : Caller} {state behind : Guarded σ} {deed : Deed}
    (h : Acts caller state deed next behind) {holder : Option Nat} {i : Nat}
    (hholds : caller.Holds ↔ holder = some i) : next.Holds ↔ deed.holder i holder = some i := by
  cases h <;> first | exact hholds | simp [Caller.Holds, Deed.holder]

/-- Only a step looks at the world or changes it. -/
theorem Caller.act_elsewhere {caller : Caller} {state : Guarded σ} {timeOver : Bool}
    (hstep : ∀ steps, caller ≠ .cycling (.stepping steps)) (world : σ) :
    caller.act step timeout timeOver { state with world } =
      (caller.act step timeout timeOver state).map fun (deed, next, behind) =>
        (deed, next, { behind with world }) := by
  cases caller with
  | cycling point =>
      cases point with
      | stepping steps => exact absurd rfl (hstep steps)
      | finished outcome => rfl
      | releasing outcome => rfl
      | _ =>
          simp only [Caller.act, CyclePoint.deed?, CyclePoint.advance, Option.map_some]
          split <;> rfl
  | starting => rfl
  | started => rfl
  | stopping point =>
      cases point with
      | waiting =>
          simp only [Caller.act, StopPoint.deed?, StopPoint.advance, Option.map_some]
          split
          · rfl
          · split <;> rfl
      | _ => rfl

/-! ## What happened explains how things stand -/

/-- What happened explains how things stand. -/
structure Explains (deeds : Deeds) (scene : Scene σ) : Prop where
  /-- `running` is what the deeds made of it. -/
  running : scene.shared.flags.running = runningAfter deeds
  /-- `indexing` is set while a call holds it. -/
  indexing : scene.shared.flags.indexing = (holderAfter deeds).isSome
  /-- A call stands where its deeds led it. -/
  standing : ∀ i caller, scene.callers[i]? = some caller → Standing (deedsOf i deeds) caller
  /-- The holder is the call that stands between its claim and its release. -/
  holds : ∀ i caller, scene.callers[i]? = some caller →
    (caller.Holds ↔ holderAfter deeds = some i)
  /-- Only calls that were made did something. -/
  made : ∀ i deed, (i, deed) ∈ deeds → i < scene.callers.length

theorem Explains.built (world : σ) : Explains [] ⟨⟨.idle, world⟩, []⟩ where
  running := rfl
  indexing := rfl
  standing := by simp
  holds := by simp
  made := by simp

/-- A call that is made has done nothing. -/
theorem Explains.called {deeds : Deeds} {scene : Scene σ} (h : Explains deeds scene)
    {caller : Caller} (hnew : caller ∈ Caller.new) :
    Explains deeds { scene with callers := scene.callers ++ [caller] } := by
  -- A call that is made now has done nothing and holds nothing.
  have hnone : deedsOf scene.callers.length deeds = [] :=
    List.eq_nil_iff_forall_not_mem.mpr fun deed hdeed =>
      absurd (h.made _ _ (mem_deedsOf.mp hdeed)) (Nat.lt_irrefl _)
  have hidle : holderAfter deeds ≠ some scene.callers.length := fun hholder =>
    absurd (h.made _ _ (claimed_of_holderAfter hholder)) (Nat.lt_irrefl _)
  -- A call in the longer list is an old one, or the new one at the end.
  have hcases : ∀ i other, (scene.callers ++ [caller])[i]? = some other →
      scene.callers[i]? = some other ∨ i = scene.callers.length ∧ other = caller := by
    intro i other hother
    rw [List.getElem?_append] at hother
    split at hother
    · exact .inl hother
    · rename_i hlength
      rw [List.getElem?_singleton] at hother
      split at hother
      · exact .inr ⟨by omega, (Option.some.inj hother).symm⟩
      · cases hother
  refine ⟨h.running, h.indexing, fun i other hother => ?_, fun i other hother => ?_,
    fun i deed hdeed => ?_⟩
  · rcases hcases i other hother with hold | ⟨rfl, rfl⟩
    · exact h.standing i other hold
    · rw [hnone]
      simp only [Caller.new, List.mem_cons, List.not_mem_nil, or_false] at hnew
      rcases hnew with rfl | rfl | rfl <;> rfl
  · rcases hcases i other hother with hold | ⟨rfl, rfl⟩
    · exact h.holds i other hold
    · simp only [Caller.new, List.mem_cons, List.not_mem_nil, or_false] at hnew
      rcases hnew with rfl | rfl | rfl <;> simp [Caller.Holds, hidle]
  · have := h.made i deed hdeed
    simp only [List.length_append, List.length_singleton]
    omega

/-- What a call does is what the deeds so far allow. -/
theorem Explains.allowed {deeds : Deeds} {scene : Scene σ} (h : Explains deeds scene) {i : Nat}
    {caller next : Caller} {deed : Deed} {behind : Guarded σ}
    (hcaller : scene.callers[i]? = some caller)
    (hact : Acts caller scene.shared deed next behind) : Allowed deeds i deed := by
  have hstanding := h.standing i caller hcaller
  have hholds := h.holds i caller hcaller
  have hindexing := h.indexing
  cases hact with
  | enter hrunning => exact hrunning.symm.trans h.running
  | refuse hrunning => exact hrunning.symm.trans h.running
  | goOn steps hrunning => exact hrunning.symm.trans h.running
  | giveUp steps hrunning => exact hrunning.symm.trans h.running
  | claim hfree =>
      rw [hfree] at hindexing
      rw [Allowed, ← Option.not_isSome, ← hindexing]
      rfl
  | yield htaken =>
      rw [htaken] at hindexing
      rw [Allowed, ← Option.not_isSome, ← hindexing]
      rfl
  | work | finish =>
      obtain ⟨inner, -, hdeeds⟩ := hstanding
      refine ⟨hholds.mp trivial, ?_⟩
      rw [hdeeds, ← List.cons_append, ← List.cons_append, List.getLast?_concat]
  | release => exact hholds.mp trivial
  | start | bar => trivial
  | leave timeOver hfree => exact hfree.symm.trans hindexing
  | despair timeOver e htaken => exact htaken.symm.trans hindexing
  | wait timeOver htaken => exact htaken.symm.trans hindexing

/-- What happened goes on explaining how things stand when a call acts. -/
theorem Explains.acted {deeds : Deeds} {scene : Scene σ} (h : Explains deeds scene) {i : Nat}
    {caller next : Caller} {deed : Deed} {behind : Guarded σ}
    (hcaller : scene.callers[i]? = some caller)
    (hact : Acts caller scene.shared deed next behind) :
    Explains (deeds ++ [(i, deed)]) ⟨behind, scene.callers.set i next⟩ := by
  have hallowed := h.allowed hcaller hact
  have hlength : i < scene.callers.length := (List.getElem?_eq_some_iff.mp hcaller).1
  -- The call that acts stands at its next point, and every other one where it stood.
  have hself : ∀ other, (scene.callers.set i next)[i]? = some other → other = next := by
    intro other hother
    rw [List.getElem?_set_self hlength] at hother
    exact (Option.some.inj hother).symm
  refine ⟨?_, ?_, fun j other hother => ?_, fun j other hother => ?_, fun j other hmem => ?_⟩
  · rw [runningAfter_snoc, hact.running, h.running]
  · rw [holderAfter_snoc]
    exact hact.indexing i h.indexing
  · by_cases hj : i = j
    · subst hj
      rw [hself other hother, deedsOf_snoc]
      exact (h.standing i caller hcaller).act hact
    · rw [List.getElem?_set_ne hj] at hother
      rw [deedsOf_snoc_of_ne hj]
      exact h.standing j other hother
  · rw [holderAfter_snoc]
    by_cases hj : i = j
    · subst hj
      rw [hself other hother]
      exact hact.holds (h.holds i caller hcaller)
    · rw [List.getElem?_set_ne hj] at hother
      rw [hallowed.holds_iff hj]
      exact h.holds j other hother
  · rw [List.length_set]
    rw [List.mem_append, List.mem_singleton, Prod.mk.injEq] at hmem
    rcases hmem with hmem | ⟨rfl, -⟩
    · exact h.made j other hmem
    · exact hlength

/-- Whatever happened explains how things stand, and was lawful. -/
theorem Happened.explains {deeds : Deeds} {scene : Scene σ}
    (h : Happened step timeout deeds scene) : Explains deeds scene ∧ Lawful deeds := by
  induction h with
  | built world => exact ⟨.built world, .nil⟩
  | called caller _ hnew ih => exact ⟨ih.1.called hnew, ih.2⟩
  | acted i timeOver _ hcaller hact ih =>
      have hacts := Caller.acts hact
      exact ⟨ih.1.acted hcaller hacts, ih.2.snoc (ih.1.allowed hcaller hacts)⟩
  | elsewhere world _ ih =>
      exact ⟨⟨ih.1.running, ih.1.indexing, ih.1.standing, ih.1.holds, ih.1.made⟩, ih.2⟩

/-! ## Turns -/

/-- What calls on one follower owe to each other, after some deeds. -/
structure TakeTurns (step : σ → Except Error SyncStep × σ) (timeout : UInt64) (deeds : Deeds)
    (scene : Scene σ) : Prop where
  /-- At most one call holds `indexing`. -/
  alone : ∀ (i j : Nat) (one other : Caller), scene.callers[i]? = some one →
    scene.callers[j]? = some other → one.Holds → other.Holds → i = j
  /-- `indexing` is set exactly while a call holds it. -/
  taken : scene.shared.flags.indexing = true ↔
    ∃ (i : Nat) (caller : Caller), scene.callers[i]? = some caller ∧ caller.Holds
  /-- Each call found the flags as the deeds before it had left them, only the holder of
      `indexing` took steps and cleared it, and each step was decided on right before. -/
  lawful : Lawful deeds
  /-- A cycle that took its turn cleared `indexing` at its end, whatever its end was. -/
  ended : ∀ i result, scene.callers[i]? = some (.cycling (.finished result)) →
    result ≠ .ok .skipped → holderAfter deeds ≠ some i ∧
      ∃ inner, Inner inner ∧
        deedsOf i deeds = .saw true :: .claimed true :: (inner ++ [.released])
  /-- A cycle that found `indexing` set is at its end, was skipped and took no step. -/
  turned : ∀ i, (i, .claimed false) ∈ deeds →
    scene.callers[i]? = some (.cycling (.finished (.ok .skipped))) ∧
      deedsOf i deeds = [.saw true, .claimed false]
  /-- Nothing but a step looks at the world or changes it. -/
  blind : ∀ (i : Nat) (caller : Caller), scene.callers[i]? = some caller →
    (∀ steps, caller ≠ .cycling (.stepping steps)) → ∀ timeOver world,
      caller.act step timeout timeOver { scene.shared with world } =
        (caller.act step timeout timeOver scene.shared).map fun (deed, next, behind) =>
          (deed, next, { behind with world })
  /-- Behind a stop that succeeded there is no step without a start behind the moment at
      which the stop cleared `running`. -/
  stopped : ∀ i, scene.callers[i]? = some (.stopping (.finished (.ok ()))) →
    ∃ before between timeOver after,
      deeds = before ++ (i, .barred) :: (between ++ (i, .looked false timeOver) :: after) ∧
        ∀ front j result back, after = front ++ (j, .stepped result) :: back →
          ∃ k, (k, .started) ∈ between ++ front
  /-- Without a start behind a stop there is at most one step, of the call that held
      `indexing` when the stop cleared `running`, and had just seen it set. -/
  barred : ∀ before i front j result back,
    deeds = before ++ (i, .barred) :: (front ++ (j, .stepped result) :: back) →
      (∀ k, (k, .started) ∉ front) →
        holderAfter before = some j ∧ (deedsOf j before).getLast? = some (.saw true) ∧
          ∀ k other, (k, .stepped other) ∉ front

/-- A cycle that found `indexing` set went no further. -/
theorem Standing.of_turned {deeds : List Deed} {caller : Caller} (h : Standing deeds caller)
    (hmem : .claimed false ∈ deeds) :
    caller = .cycling (.finished (.ok .skipped)) ∧ deeds = [.saw true, .claimed false] := by
  have hinner : ∀ inner, Inner inner → Deed.claimed false ∉ inner := by
    intro inner hinner hmem
    rcases hinner _ hmem with ⟨_, heq⟩ | ⟨_, heq⟩ <;> cases heq
  cases caller with
  | cycling point =>
      cases point with
      | entering => simp [show deeds = [] from h] at hmem
      | claiming => simp [show deeds = [.saw true] from h] at hmem
      | checking _ =>
          obtain ⟨inner, h, rfl⟩ := h
          simp [hinner inner h] at hmem
      | stepping _ =>
          obtain ⟨inner, h, rfl⟩ := h
          simp [hinner inner h] at hmem
      | releasing _ =>
          obtain ⟨-, inner, h, rfl⟩ := h
          simp [hinner inner h] at hmem
      | finished _ =>
          rcases h with ⟨rfl, rfl | rfl⟩ | ⟨-, inner, h, rfl⟩
          · simp at hmem
          · exact ⟨rfl, rfl⟩
          · simp [hinner inner h] at hmem
  | starting => simp [show deeds = [] from h] at hmem
  | started => simp [show deeds = [.started] from h] at hmem
  | stopping point =>
      cases point with
      | clearing => simp [show deeds = [] from h] at hmem
      | waiting =>
          obtain ⟨looks, rfl, hlooks⟩ := h
          have hnone : Deed.claimed false ∉ looks := fun hlook => by simpa using hlooks _ hlook
          simp [hnone] at hmem
      | finished _ =>
          obtain ⟨looks, _, _, rfl, hlooks, -⟩ := h
          have hnone : Deed.claimed false ∉ looks := fun hlook => by simpa using hlooks _ hlook
          simp [hnone] at hmem

/-- A stop that succeeded cleared `running`, and later found `indexing` clear. -/
theorem Standing.of_stopped {deeds : List Deed}
    (h : Standing deeds (.stopping (.finished (.ok ())))) :
    ∃ looks timeOver, deeds = .barred :: (looks ++ [.looked false timeOver]) := by
  rcases h with ⟨looks, busy, timeOver, rfl, -, hbusy⟩
  exact ⟨looks, timeOver, by rw [hbusy.mpr rfl]⟩

/-- **Cycles do not overlap, and a stop stops them.** However cycles, starts and stops mix,
    one call at a time holds `indexing` and only it takes steps; whoever finds it held
    leaves at once; and what goes on behind a stop is at most one step that was decided on
    ahead of it, and nothing once the stop has succeeded. -/
theorem cycles_take_turns {deeds : Deeds} {scene : Scene σ}
    (h : Happened step timeout deeds scene) : TakeTurns step timeout deeds scene := by
  -- Each part is read off where the calls stand, or off their deeds alone.
  rcases h.explains with ⟨hexplains, hlawful⟩
  refine ⟨?alone, ?taken, ?lawful, ?ended, ?turned, ?blind, ?stopped, ?barred⟩
  case alone =>
    intro i j one other hone hother hi hj
    have hholder := (hexplains.holds i one hone).mp hi
    exact Option.some.inj (hholder.symm.trans ((hexplains.holds j other hother).mp hj))
  case taken =>
    rw [hexplains.indexing, Option.isSome_iff_exists]
    constructor
    · rintro ⟨i, hholder⟩
      have hmade := hexplains.made _ _ (claimed_of_holderAfter hholder)
      have hcaller := List.getElem?_eq_getElem hmade
      exact ⟨i, _, hcaller, (hexplains.holds i _ hcaller).mpr hholder⟩
    · rintro ⟨i, caller, hcaller, hholds⟩
      exact ⟨i, (hexplains.holds i caller hcaller).mp hholds⟩
  case lawful => exact hlawful
  case ended =>
    intro i result hcaller hresult
    refine ⟨fun hholder => (hexplains.holds i _ hcaller).mpr hholder, ?_⟩
    rcases hexplains.standing i _ hcaller with ⟨hskipped, -⟩ | ⟨-, hdeeds⟩
    · exact absurd hskipped hresult
    · exact hdeeds
  case turned =>
    intro i hmem
    have hcaller := List.getElem?_eq_getElem (hexplains.made i _ hmem)
    rcases (hexplains.standing i _ hcaller).of_turned (mem_deedsOf.mpr hmem) with ⟨heq, hdeeds⟩
    exact ⟨heq ▸ hcaller, hdeeds⟩
  case blind => exact fun i caller _ hstep timeOver world => caller.act_elsewhere hstep world
  case stopped =>
    intro i hcaller
    rcases (hexplains.standing i _ hcaller).of_stopped with ⟨looks, timeOver, hdeeds⟩
    rcases of_deedsOf hdeeds with ⟨before, between, after, rfl⟩
    refine ⟨before, between, timeOver, after, rfl, fun front j result back hafter => ?_⟩
    exact hlawful.started_since (by rw [hafter])
  case barred =>
    intro before i front j result back heq hstart
    rcases hlawful.idle_since heq hstart with ⟨hholder, hlast, -⟩
    exact ⟨hholder, hlast, hlawful.last_step heq hstart⟩

/-- What three cycles, two starts and two stops did in a mix: a stop came ahead of the last
    step of a cycle that kept another one out, and one between the first look of a cycle and
    its claim. -/
def aroundStops : Deeds :=
  [(0, .started), (1, .saw true), (1, .claimed true), (2, .saw true), (2, .claimed false),
    (1, .saw true), (3, .barred), (1, .stepped (.ok (.genesis "g"))), (1, .saw false),
    (3, .looked true false), (1, .released), (3, .looked false false), (4, .started),
    (5, .saw true), (6, .barred), (6, .looked false false), (5, .claimed true),
    (5, .saw false), (5, .released)]

/-- How things stand after that. -/
def behindStops : Scene Unit :=
  ⟨⟨.idle, ()⟩, [.started, .cycling (.finished (.ok (.completed 1))),
    .cycling (.finished (.ok .skipped)), .stopping (.finished (.ok ())), .started,
    .cycling (.finished (.ok (.completed 0))), .stopping (.finished (.ok ()))]⟩

/-- Stops at the two moments where a cycle has looked at `running` and not acted on it. -/
theorem cycles_take_turns_around_stops :
    Happened (fun _ : Unit => (.ok (.genesis "g"), ())) 0 aroundStops behindStops ∧
      TakeTurns (fun _ : Unit => (.ok (.genesis "g"), ())) 0 aroundStops behindStops := by
  have hbuilt : Happened (fun _ : Unit => (.ok (.genesis "g"), ())) 0 [] ⟨⟨.idle, ()⟩, []⟩ :=
    .built ()
  have hmade := ((((((hbuilt.called .starting (by simp [Caller.new])).called
    (.cycling .entering) (by simp [Caller.new])).called
    (.cycling .entering) (by simp [Caller.new])).called
    (.stopping .clearing) (by simp [Caller.new])).called
    .starting (by simp [Caller.new])).called
    (.cycling .entering) (by simp [Caller.new])).called
    (.stopping .clearing) (by simp [Caller.new])
  have hone := (((((hmade.acted 0 false rfl rfl).acted 1 false rfl rfl).acted 1 false rfl
    rfl).acted 2 false rfl rfl).acted 2 false rfl rfl).acted 1 false rfl rfl
  have hstopped := (((((hone.acted 3 false rfl rfl).acted 1 false rfl rfl).acted 1 false rfl
    rfl).acted 3 false rfl rfl).acted 1 false rfl rfl).acted 3 false rfl rfl
  have hall : Happened _ 0 aroundStops behindStops :=
    ((((((hstopped.acted 4 false rfl rfl).acted 5 false rfl rfl).acted 6 false rfl rfl).acted 6
      false rfl rfl).acted 5 false rfl rfl).acted 5 false rfl rfl).acted 5 false rfl rfl
  exact ⟨hall, cycles_take_turns hall⟩

end

end ChainIndex
