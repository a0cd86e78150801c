import ChainIndex.Proofs.Program.Runs
import ChainIndex.Proofs.Entity.RoundTrip
import ChainIndex.Entity.Price
import ChainIndex.Entity.Token
import ChainIndex.Entity.TransactionRecord

/-!
# Runs that read and write records

The rules of `Program.Runs` for the operations on typed records. A save and a removal are
functions on stores, and so are lists of them. Of a list of saves the last one under a key
counts, and `lastStored` says which that is: the pairs of an oracle may have one key
between several of them.

A read has a rule for each way it may go: there is no record, or there is one that is
read back as what was stored. A record that was not stored by a save would be a third way,
and the rules ask that there is none.

## Main definitions

* `Recorded`: A kind of record that is not the ledger.
* `Entity.stored`: What is kept of a value.
* `Entity.saved`, `Entity.removed`: The store after a save and after a removal.
* `Entity.lastStored`: What a list of saves leaves under a key.
* `Entity.Held`: A value is kept under its own key.
* `Entity.Typed`: Every record of a kind was stored as a value of it.

## Theorems

* `find_savedAll`, `find_removedAll`: What lists of saves and removals leave.
* `runs_save`, `runs_remove`, `runs_saveAll`, `runs_removeAll`: Writing.
* `quiet_list`, `quiet_require`, and so on: Reading leaves the store as it is.
* `runs_find?`, `runs_require`, `runs_scan_newest`, `runs_first?`: What is read.
* `runs_find_held`, `runs_find_free`, `runs_require_held`: The same where the record is known.
* `run_find?_of_get`, `run_find?_of_absent`: What is read in any store.
-/

namespace ChainIndex

/-- The records of this kind are not the ledger. -/
class Recorded (α : Type) [Entity α] : Prop where
  model_ne_ledger : Entity.model α ≠ ledgerModel

instance : Recorded Token := ⟨by decide⟩
instance : Recorded Oracle := ⟨by decide⟩
instance : Recorded OracleSnapshot := ⟨by decide⟩
instance : Recorded Membership := ⟨by decide⟩
instance : Recorded PriceFeed := ⟨by decide⟩
instance : Recorded PriceAggregate := ⟨by decide⟩
instance : Recorded Masternode := ⟨by decide⟩
instance : Recorded MasternodeStats := ⟨by decide⟩
instance : Recorded BlockRecord := ⟨by decide⟩
instance : Recorded TransactionRecord := ⟨by decide⟩
instance : Recorded OutputRecord := ⟨by decide⟩

namespace Entity

variable {α : Type} [Entity α]

/-- What is kept of a value. -/
def stored (a : α) : Stored := (toJson a, entries a)

/-- The store after a save. -/
def saved (store : MemoryStore) (a : α) : MemoryStore :=
  store.put (model α) (toRecord a)

variable (α) in
/-- The store after a removal. -/
def removed (store : MemoryStore) (key : String) : MemoryStore :=
  store.delete (model α) key

/-- The store after saves, one after another. -/
def savedAll (store : MemoryStore) (items : List α) : MemoryStore :=
  items.foldl saved store

variable (α) in
/-- The store after removals, one after another. -/
def removedAll (store : MemoryStore) (keys : List String) : MemoryStore :=
  keys.foldl (removed α) store

/-- What a list of saves leaves under a key: the last of them counts. -/
def lastStored (items : List α) (k : String) : Option Stored :=
  items.foldl (fun found a => if k = key a then some (stored a) else found) none

/-- A value that is read back was stored in one way only. -/
theorem stored_injective [RoundTrip α] {a b : α} (h : stored a = stored b) : a = b := by
  have hjson : toJson a = toJson b := congrArg Prod.fst h
  have hdecode := RoundTrip.decode_toJson a
  rw [hjson, RoundTrip.decode_toJson b, Except.ok.injEq] at hdecode
  exact hdecode.symm

theorem find_saved (store : MemoryStore) (a : α) (m k : String) :
    (saved store a).find m k =
      if m = model α ∧ k = key a then some (stored a) else store.find m k :=
  MemoryStore.find_put store (model α) m k (toRecord a)

theorem find_removed (store : MemoryStore) (erased m k : String) :
    (removed α store erased).find m k =
      if m = model α ∧ k = erased then none else store.find m k :=
  MemoryStore.find_delete store (model α) m k erased

theorem foldl_lastStored (items : List α) (k : String) (found : Option Stored) :
    items.foldl (fun found a => if k = key a then some (stored a) else found) found
      = (lastStored items k).or found := by
  unfold lastStored
  induction items generalizing found with
  | nil => rfl
  | cons a rest ih =>
      rw [List.foldl_cons, List.foldl_cons, ih, ih (if k = key a then some (stored a) else none)]
      by_cases hk : k = key a
      · simp [hk]
      · simp [hk]

theorem lastStored_cons (a : α) (rest : List α) (k : String) :
    lastStored (a :: rest) k
      = (lastStored rest k).or (if k = key a then some (stored a) else none) := by
  rw [← foldl_lastStored]
  rfl

/-- A list of saves leaves something exactly under the keys it saves. -/
theorem lastStored_eq_none_iff (items : List α) (k : String) :
    lastStored items k = none ↔ ∀ a ∈ items, k ≠ key a := by
  induction items with
  | nil => simp [lastStored]
  | cons a rest ih =>
      rw [lastStored_cons, Option.or_eq_none_iff, ih]
      simp only [List.mem_cons, forall_eq_or_imp, ite_eq_right_iff, reduceCtorEq]
      tauto

/-- What a list of saves leaves is what one of them stored. -/
theorem lastStored_mem {items : List α} {k : String} {found : Stored}
    (h : lastStored items k = some found) : ∃ a ∈ items, k = key a ∧ found = stored a := by
  induction items with
  | nil => simp [lastStored] at h
  | cons a rest ih =>
      rw [lastStored_cons] at h
      rcases hrest : lastStored rest k with _ | last
      · rw [hrest, Option.none_or] at h
        -- No later save has this key, so it is the first one that counts.
        by_cases hk : k = key a
        · rw [if_pos hk, Option.some.injEq] at h
          exact ⟨a, List.mem_cons_self, hk, h.symm⟩
        · rw [if_neg hk] at h
          exact absurd h (by simp)
      · rw [hrest, Option.some_or] at h
        rcases ih (hrest.trans h) with ⟨b, hb, hkey, hfound⟩
        exact ⟨b, List.mem_cons_of_mem a hb, hkey, hfound⟩

theorem find_savedAll (store : MemoryStore) (items : List α) (m k : String) :
    (savedAll store items).find m k =
      if m = model α then (lastStored items k).or (store.find m k) else store.find m k := by
  unfold savedAll
  induction items generalizing store with
  | nil => simp [lastStored]
  | cons a rest ih =>
      -- A save further down the list hides the one at its head.
      rw [List.foldl_cons, ih, find_saved, lastStored_cons]
      by_cases hm : m = model α
      · by_cases hk : k = key a
        · simp [hm, hk]
        · simp [hm, hk]
      · simp [hm]

theorem find_removedAll (store : MemoryStore) (keys : List String) (m k : String) :
    (removedAll α store keys).find m k =
      if m = model α ∧ k ∈ keys then none else store.find m k := by
  unfold removedAll
  induction keys generalizing store with
  | nil => simp
  | cons erased rest ih =>
      rw [List.foldl_cons, ih, find_removed]
      by_cases hm : m = model α
      · by_cases hk : k = erased
        · simp [hm, hk]
        · simp [hm, hk]
      · simp [hm]

theorem wf_saved {store : MemoryStore} (h : store.WF) (a : α) : (saved store a).WF :=
  h.put (model α) (toRecord a)

theorem wf_removed {store : MemoryStore} (h : store.WF) (erased : String) :
    (removed α store erased).WF :=
  h.delete (model α) erased

/-- A value is kept in a store under its own key. -/
def Held (store : MemoryStore) (a : α) : Prop :=
  store.find (model α) (key a) = some (stored a)

/-- What is held of a kind depends on the records of that kind only. -/
theorem held_congr {store after : MemoryStore}
    (hsame : ∀ k, after.find (model α) k = store.find (model α) k) (a : α) :
    Held after a ↔ Held store a := by
  rw [Held, Held, hsame]

theorem held_saved (store : MemoryStore) (a : α) : Held (saved store a) a := by
  rw [Held, find_saved, if_pos ⟨rfl, rfl⟩]

/-- What is held after a save is the value that was saved, or was held under another key. -/
theorem held_saved_iff [RoundTrip α] {store : MemoryStore} {a b : α} :
    Held (saved store a) b ↔ Held store b ∧ key b ≠ key a ∨ b = a := by
  rw [Held, find_saved]
  by_cases hk : key b = key a
  · rw [if_pos ⟨rfl, hk⟩, Option.some.injEq]
    exact ⟨fun heq => Or.inr (stored_injective heq).symm,
      fun hor => hor.elim (fun hc => absurd hk hc.2) fun heq => congrArg stored heq.symm⟩
  · rw [if_neg fun hc => hk hc.2]
    exact ⟨fun hheld => Or.inl ⟨hheld, hk⟩,
      fun hor => hor.elim And.left fun heq => absurd (congrArg key heq) hk⟩

theorem Held.of_saved [RoundTrip α] {store : MemoryStore} {a b : α} (h : Held (saved store a) b) :
    b = a ∨ key b ≠ key a ∧ Held store b :=
  (held_saved_iff.mp h).symm.imp_right And.symm

variable (α) in
/-- Every record of this kind that is held was stored, under its own key. -/
def Typed (store : MemoryStore) : Prop :=
  ∀ k found, store.find (model α) k = some found → ∃ a : α, found = stored a ∧ k = key a

/-- Every record of the kind is a value that is held. -/
theorem Typed.exists_held {store : MemoryStore} (h : Typed α store) {k : String} {found : Stored}
    (hfound : store.find (model α) k = some found) :
    ∃ a : α, found = stored a ∧ k = key a ∧ Held store a := by
  rcases h k found hfound with ⟨a, rfl, rfl⟩
  exact ⟨a, rfl, rfl, hfound⟩

theorem Typed.congr {store after : MemoryStore} (h : Typed α store)
    (hsame : ∀ k, after.find (model α) k = store.find (model α) k) : Typed α after :=
  fun k found hfound => h k found (hsame k ▸ hfound)

theorem Typed.removed {β : Type} [Entity β] {store : MemoryStore} (h : Typed α store)
    (erased : String) : Typed α (removed β store erased) := by
  intro k found hfound
  rw [find_removed] at hfound
  split at hfound
  · exact absurd hfound (by simp)
  · exact h k found hfound

theorem Typed.saved {store : MemoryStore} (h : Typed α store) (a : α) :
    Typed α (saved store a) := by
  intro k found hfound
  rw [find_saved] at hfound
  split at hfound
  · next hk => exact ⟨a, (Option.some.inj hfound).symm, hk.2⟩
  · exact h k found hfound

theorem Typed.saved_of_ne {β : Type} [Entity β] {store : MemoryStore} (h : Typed α store) (b : β)
    (hne : model α ≠ model β) : Typed α (Entity.saved store b) := by
  intro k found hfound
  rw [find_saved, if_neg fun hk => hne hk.1] at hfound
  exact h k found hfound

end Entity

namespace Program

open Entity

variable {α : Type} [Entity α] [Recorded α]
variable {mid : MemoryStore → Prop} {fail : Prop} {store : MemoryStore}

/-! ## Writing -/

theorem runs_save {post : Unit → MemoryStore → Prop} {a : α} (hbefore : mid store)
    (hafter : mid (saved store a)) (hpost : post () (saved store a)) :
    Runs mid fail post (save a) store :=
  runs_request ⟨model α, rfl, Recorded.model_ne_ledger⟩ rfl hbefore hafter hpost

theorem runs_remove {post : Unit → MemoryStore → Prop} {k : String} (hbefore : mid store)
    (hafter : mid (removed α store k)) (hpost : post () (removed α store k)) :
    Runs mid fail post (remove α k) store :=
  runs_request ⟨model α, rfl, Recorded.model_ne_ledger⟩ rfl hbefore hafter hpost

/-- Whatever is written, the places follow. -/
theorem runs_save_wf (hwf : store.WF) (a : α) :
    Runs MemoryStore.WF fail (fun _ behind => behind = saved store a) (save a) store :=
  runs_save hwf (wf_saved hwf a) rfl

theorem runs_remove_wf (hwf : store.WF) (k : String) :
    Runs MemoryStore.WF fail (fun _ behind => behind = removed α store k) (remove α k) store :=
  runs_remove hwf (wf_removed hwf k) rfl

/-- Saves in a loop, each of which keeps `mid`. -/
theorem runs_saveAll {β : Type} {post : PUnit → MemoryStore → Prop} (items : List β)
    (f : β → α) (hmid : mid store)
    (hkeep : ∀ b ∈ items, ∀ behind, mid behind → mid (saved behind (f b)))
    (hpost : mid (savedAll store (items.map f)) → post () (savedAll store (items.map f))) :
    Runs mid fail post (items.forM fun b => save (f b)) store := by
  refine (runs_forM (fun done _ behind => behind = savedAll store (done.map f)) items hmid rfl
    fun done b rest behind hitems hbehind hdone => ?_).mono fun _ behind hafter hbehind => ?_
  · have hmem : b ∈ items := hitems ▸ List.mem_append_right done List.mem_cons_self
    refine runs_save hbehind (hkeep b hmem behind hbehind) ?_
    simp only [savedAll, List.map_append, List.map_cons, List.map_nil, List.foldl_append,
      List.foldl_cons, List.foldl_nil]
    rw [hdone, savedAll]
  · subst hbehind
    exact hpost hafter

variable (α) in
/-- Removals in a loop, each of which keeps `mid`. -/
theorem runs_removeAll {β : Type} {post : PUnit → MemoryStore → Prop} (items : List β)
    (f : β → String) (hmid : mid store)
    (hkeep : ∀ b ∈ items, ∀ behind, mid behind → mid (removed α behind (f b)))
    (hpost : mid (removedAll α store (items.map f)) →
      post () (removedAll α store (items.map f))) :
    Runs mid fail post (items.forM fun b => remove α (f b)) store := by
  refine (runs_forM (fun done _ behind => behind = removedAll α store (done.map f)) items hmid rfl
    fun done b rest behind hitems hbehind hdone => ?_).mono fun _ behind hafter hbehind => ?_
  · have hmem : b ∈ items := hitems ▸ List.mem_append_right done List.mem_cons_self
    refine runs_remove hbehind (hkeep b hmem behind hbehind) ?_
    simp only [removedAll, List.map_append, List.map_cons, List.map_nil, List.foldl_append,
      List.foldl_cons, List.foldl_nil]
    rw [hdone, removedAll]
  · subst hbehind
    exact hpost hafter

/-! ## Reading whatever there is -/

variable (α) in
theorem quiet_scan (index : IndexDef) (partition : Option String) (limit : UInt64)
    (bound : Option String) : Quiet (scan α index partition limit bound) :=
  quiet_bind (quiet_request ⟨model α, rfl, Recorded.model_ne_ledger⟩ rfl) fun _ => trivial

variable (α) in
theorem quiet_first? (index : IndexDef) (partition : Option String) :
    Quiet (first? α index partition) :=
  quiet_bind (quiet_scan α index partition 1 none) fun _ => trivial

variable (α) in
theorem quiet_find? (k : String) : Quiet (find? α k) := by
  refine quiet_bind (quiet_request ⟨model α, rfl, Recorded.model_ne_ledger⟩ rfl) fun value => ?_
  cases value with
  | none => exact trivial
  | some value => exact quiet_bind (quiet_ofExcept (decode value)) fun _ => trivial

variable (α) in
theorem quiet_require (k : String) : Quiet (require α k) := by
  refine quiet_bind (quiet_find? α k) fun value => ?_
  cases value with
  | none => exact trivial
  | some a => exact trivial

theorem quiet_listFrom (index : IndexDef) (partition : Option String) (pages : Nat)
    (found : List α) (bound : Option String) :
    Quiet (listFrom index partition pages found bound) := by
  induction pages generalizing found bound with
  | zero => exact trivial
  | succ pages ih =>
      refine quiet_bind (quiet_scan α index partition PageQuery.maxLimit bound) fun batch => ?_
      simp only
      split
      · exact trivial
      · exact ih _ _

variable (α) in
theorem quiet_list (index : IndexDef) (partition : Option String) :
    Quiet (list α index partition) :=
  quiet_bind (quiet_request ⟨model α, rfl, Recorded.model_ne_ledger⟩ rfl) fun _ =>
    quiet_listFrom index partition _ _ _

/-! ## What is read -/

variable [RoundTrip α]

theorem runs_find? {post : Option α → MemoryStore → Prop} {k : String} (hmid : mid store)
    (hnone : store.find (model α) k = none → post none store)
    (hsome : ∀ found, store.find (model α) k = some found →
      ∃ a, found = stored a ∧ post (some a) store) :
    Runs mid fail post (find? α k) store := by
  have hget : store.get (model α) k = (store.find (model α) k).map Prod.fst := rfl
  refine runs_bind (q := fun value behind =>
    behind = store ∧ value = (store.find (model α) k).map Prod.fst)
    (runs_request ⟨model α, rfl, Recorded.model_ne_ledger⟩ rfl hmid hmid ⟨rfl, hget⟩) ?_
  rintro value behind - ⟨rfl, rfl⟩
  -- What is found under the key was stored by a save, so it is read back.
  rcases hfind : behind.find (model α) k with _ | found
  · exact runs_pure hmid (hnone hfind)
  · rcases hsome found hfind with ⟨a, rfl, hpost⟩
    simp only [Option.map_some, stored, RoundTrip.decode_toJson]
    exact runs_pure hmid hpost

theorem runs_require {post : α → MemoryStore → Prop} {k : String} (hmid : mid store)
    (hnone : store.find (model α) k = none → fail)
    (hsome : ∀ found, store.find (model α) k = some found →
      ∃ a, found = stored a ∧ post a store) :
    Runs mid fail post (require α k) store := by
  refine runs_bind (q := fun value behind => behind = store ∧
    ((value = none ∧ fail) ∨ ∃ a, value = some a ∧ post a store)) (runs_find? hmid ?_ ?_) ?_
  · exact fun h => ⟨rfl, Or.inl ⟨rfl, hnone h⟩⟩
  · intro found hfound
    rcases hsome found hfound with ⟨a, ha, hpost⟩
    exact ⟨a, ha, rfl, Or.inr ⟨a, rfl, hpost⟩⟩
  · rintro value behind - ⟨rfl, ⟨rfl, hfail⟩ | ⟨a, rfl, hpost⟩⟩
    · exact runs_throw hmid hfail
    · exact runs_pure hmid hpost

/-- Where it is known what is under the key, that is what is found. -/
theorem runs_find_held {k : String} {a : α} (hmid : mid store)
    (h : store.find (model α) k = some (stored a)) :
    Runs mid fail (fun value behind => behind = store ∧ value = some a) (find? α k) store :=
  runs_find? hmid (fun hnone => absurd (h.symm.trans hnone) (by simp)) fun _ hfound =>
    ⟨a, Option.some.inj (hfound.symm.trans h), rfl, rfl⟩

theorem runs_find_free {k : String} (hmid : mid store)
    (h : store.find (model α) k = none) :
    Runs mid fail (fun value behind => behind = store ∧ value = none) (find? α k) store :=
  runs_find? hmid (fun _ => ⟨rfl, rfl⟩) fun _ hfound => absurd (h.symm.trans hfound) (by simp)

theorem runs_require_held {k : String} {a : α} (hmid : mid store)
    (h : store.find (model α) k = some (stored a)) :
    Runs mid fail (fun value behind => behind = store ∧ value = a) (require α k) store :=
  runs_require hmid (fun hnone => absurd (h.symm.trans hnone) (by simp)) fun _ hfound =>
    ⟨a, Option.some.inj (hfound.symm.trans h), rfl, rfl⟩

/-- What is required is there, or it is an error. -/
theorem runs_require_there (hwf : store.WF) (k : String) :
    Runs MemoryStore.WF True
      (fun _ behind => behind = store ∧ store.find (model α) k ≠ none) (require α k) store := by
  by_cases hthere : store.find (model α) k = none
  · have hnever : Runs MemoryStore.WF True (fun _ _ => False) (require α k) store :=
      runs_require hwf (fun _ => trivial) fun _ hfound =>
        absurd (hthere.symm.trans hfound) (by simp)
    exact hnever.mono fun _ _ _ hpost => hpost.elim
  · exact ((quiet_require α k).runs hwf).mono fun _ _ _ hbehind => ⟨hbehind, hthere⟩

/-- A scan from the top that stops at the first value finds the one at the greatest place, if
    all places lie past the bound. -/
theorem runs_scan_newest {q : Option α → MemoryStore → Prop} {index : IndexDef}
    {partition bound : Option String} (hwf : store.WF) (hdesc : index.direction = .desc)
    (hmid : mid store)
    (hbound : ∀ place, place ∈
      (store.model (model α)).placesAt ⟨index.name, partition.getD ""⟩ →
      ∀ limit, bound = some limit → place.sort < limit)
    (hnone : (∀ place, place ∉
      (store.model (model α)).placesAt ⟨index.name, partition.getD ""⟩) → q none store)
    (hsome : ∀ place found,
      (store.model (model α)).Greatest ⟨index.name, partition.getD ""⟩ place →
      store.find (model α) place.key = some found →
      ∃ a, found = stored a ∧ q (some a) store) :
    Runs mid fail (fun values behind => behind = store ∧ q values.head? store)
      (Entity.scan α index partition 1 bound) store := by
  unfold Entity.scan
  rw [hdesc]
  refine runs_bind (q := fun values behind => behind = store ∧
    values = store.scan (model α) ⟨index.name, partition, .desc, 1, bound⟩)
    (runs_request ⟨model α, rfl, Recorded.model_ne_ledger⟩ rfl hmid hmid ⟨rfl, rfl⟩) ?_
  rintro values behind - ⟨rfl, rfl⟩
  rcases MemoryModel.scan_newest (hwf (model α)) index.name partition bound hbound with
    ⟨hempty, hno⟩ | ⟨place, found, hgreatest, hfind, hone⟩
  · rw [MemoryStore.scan, hempty]
    exact runs_pure hmid ⟨rfl, hnone hno⟩
  · rcases hsome place found hgreatest hfind with ⟨a, rfl, hq⟩
    rw [MemoryStore.scan, hone]
    simp only [List.mapM_cons, List.mapM_nil, stored, RoundTrip.decode_toJson]
    exact runs_pure hmid ⟨rfl, hq⟩

/-- The first value from the top of a partition is the one at its greatest place. -/
theorem runs_first? {post : Option α → MemoryStore → Prop} {index : IndexDef}
    {partition : Option String} (hwf : store.WF) (hdesc : index.direction = .desc)
    (hmid : mid store)
    (hnone : (∀ place, place ∉
      (store.model (model α)).placesAt ⟨index.name, partition.getD ""⟩) → post none store)
    (hsome : ∀ place found,
      (store.model (model α)).Greatest ⟨index.name, partition.getD ""⟩ place →
      store.find (model α) place.key = some found →
      ∃ a, found = stored a ∧ post (some a) store) :
    Runs mid fail post (first? α index partition) store := by
  refine runs_bind (runs_scan_newest hwf hdesc hmid (fun _ _ _ hlimit => ?_) hnone hsome) ?_
  · exact absurd hlimit (by simp)
  · rintro values behind hmid ⟨rfl, hpost⟩
    exact runs_pure hmid hpost

/-! ## What is read in any store -/

variable {σ β : Type} [KeyedStore σ] {world : World σ} [Entity β]

/-- A value that is read under a key is decoded. -/
theorem run_find?_of_get [RoundTrip β] {k : String} {b : β}
    (h : KeyedStore.get world.store (model β) k = .ok (some (toJson b))) :
    (find? β k).run World.answer world = (.ok (some b), world) := by
  have hanswer : World.answer (.get (model β) k) world = (.ok (some (toJson b)), world) := by
    rw [World.answer, h]
  change ((Program.request (.get (model β) k)).bind _).run World.answer world = _
  rw [Program.run_bind, Program.request, Program.run, hanswer]
  simp only [Program.run, RoundTrip.decode_toJson]
  rfl

theorem run_find?_of_absent {k : String}
    (h : KeyedStore.get world.store (model β) k = .ok none) :
    (find? β k).run World.answer world = (.ok none, world) := by
  have hanswer : World.answer (.get (model β) k) world = (.ok none, world) := by
    rw [World.answer, h]
  change ((Program.request (.get (model β) k)).bind _).run World.answer world = _
  rw [Program.run_bind, Program.request, Program.run, hanswer]
  rfl

end Program

end ChainIndex
