import ChainIndex.Proofs.Follower.Ledger
import ChainIndex.Proofs.Indexer.Writes
import ChainIndex.Proofs.Text.Keys

/-!
# Stores that can be read

Whatever happens to a follower, and whatever blocks it is given, it puts whole records under
their own keys. So what is read back from its store is always what was stored: the ledger, the
tip, and the records that undoing looks up. `Legible` says just that. It assumes nothing of the
blocks or of the source, which is what makes it hold of every store that a follower may be met
in.

## Main definitions

* `MemoryStore.Legible`: What is read back was stored whole.
* `MemoryStore.HasBlock`, `MemoryStore.IsTip`: The block records, and the highest of them.
* `MemoryStore.NoBlocks`: There is no block record.

## Theorems

* `Legible.reply`, `Legible.saved_status`: What keeps a store legible.
* `Makes.runs_within`: A program leaves alone what it may not write to.
* `Legible.runs_tip?`: The tip is read as it is.
-/

namespace ChainIndex

open Entity Program

/-- A put keeps the records of a kind whole if what it puts is. -/
theorem Entity.Typed.put {α : Type} [Entity α] {store : MemoryStore} (h : Typed α store)
    {m : String} {record : Record} (hwhole : m = model α → ∃ a : α, record = toRecord a) :
    Typed α (store.put m record) := by
  intro k found hfound
  rw [MemoryStore.find_put] at hfound
  split at hfound
  · next hk =>
    rcases hwhole hk.1.symm with ⟨a, rfl⟩
    exact ⟨a, (Option.some.inj hfound).symm, hk.2⟩
  · exact h k found hfound

/-- Records of a kind stay whole where a store holds nothing new of it. -/
theorem Entity.Typed.of_reply {α : Type} [Entity α] {store behind : MemoryStore}
    (h : Typed α store) {keys : String → String → Prop} {c : Call} (hc : c.Within keys)
    (hwhole : ∀ m record, WholeRecord m record → m = model α → ∃ a : α, record = toRecord a)
    {answer : c.Answer} (hreply : store.reply c = some (answer, behind)) : Typed α behind := by
  cases c with
  | put m record =>
      simp only [MemoryStore.reply, Option.some.injEq, Prod.mk.injEq] at hreply
      rw [← hreply.2]
      exact h.put (hwhole m record hc.2)
  | delete m k =>
      simp only [MemoryStore.reply, Option.some.injEq, Prod.mk.injEq] at hreply
      intro k' found hfound
      rw [← hreply.2, MemoryStore.find_delete] at hfound
      split at hfound
      · exact absurd hfound (by simp)
      · exact h k' found hfound
  | get | scan | extent =>
      simp only [MemoryStore.reply, Option.some.injEq, Prod.mk.injEq] at hreply
      exact hreply.2 ▸ h
  | _ => simp only [MemoryStore.reply, reduceCtorEq] at hreply

namespace MemoryStore

/-- Whatever is read back by a step, or when a block is undone, was stored whole. -/
structure Legible (store : MemoryStore) : Prop where
  wf : store.WF
  blocks : Typed BlockRecord store
  snapshots : Typed OracleSnapshot store
  nodes : Typed Masternode store
  stats : Typed MasternodeStats store
  ledger : ∃ status, store.Noted status

/-- The store has this block record. -/
def HasBlock (store : MemoryStore) (record : BlockRecord) : Prop :=
  store.find (Entity.model BlockRecord) record.hash = some (stored record)

/-- The store has no block record. -/
def NoBlocks (store : MemoryStore) : Prop :=
  ∀ record, ¬ store.HasBlock record

/-- The store has this block record, and none that is higher. -/
structure IsTip (store : MemoryStore) (tip : BlockRecord) : Prop where
  here : store.HasBlock tip
  highest : ∀ record, store.HasBlock record → record.height ≤ tip.height

variable {store behind : MemoryStore}

theorem legible_empty : Legible .empty := by
  have hnone : ∀ m k, find .empty m k = none := find_empty
  refine ⟨wf_empty, fun k found h => ?_, fun k found h => ?_, fun k found h => ?_,
    fun k found h => ?_, none, hnone _ _⟩
  all_goals
    rw [hnone] at h
    exact absurd h (by simp)

/-- A call on records that writes nothing but whole records keeps a store legible. -/
theorem Legible.reply (h : Legible store) (keys : String → String → Prop) {c : Call}
    (hrecords : c.OnRecords) (hc : c.Within keys) {answer : c.Answer}
    (hreply : store.reply c = some (answer, behind)) : Legible behind where
  wf := h.wf.reply c answer hreply
  blocks := h.blocks.of_reply hc (fun _ _ hwhole => hwhole.1) hreply
  snapshots := h.snapshots.of_reply hc (fun _ _ hwhole => hwhole.2.1) hreply
  nodes := h.nodes.of_reply hc (fun _ _ hwhole => hwhole.2.2.1) hreply
  stats := h.stats.of_reply hc (fun _ _ hwhole => hwhole.2.2.2) hreply
  ledger := by
    rcases h.ledger with ⟨status, hnoted⟩
    exact ⟨status, hnoted.congr (model_ledger_reply c hrecords answer hreply)⟩

/-- So does a save. -/
theorem Legible.saved {α : Type} [Entity α] [Recorded α] [Whole α] (h : Legible store) (a : α) :
    Legible (saved store a) :=
  h.reply (fun _ _ => True) (c := .put (Entity.model α) (toRecord a))
    ⟨Entity.model α, rfl, Recorded.model_ne_ledger⟩ ⟨trivial, Whole.record a⟩ rfl

/-- And a removal. -/
theorem Legible.removed {α : Type} [Entity α] [Recorded α] (h : Legible store) (k : String) :
    Legible (removed α store k) :=
  h.reply (fun _ _ => True) (c := .delete (Entity.model α) k)
    ⟨Entity.model α, rfl, Recorded.model_ne_ledger⟩ trivial rfl

/-- Writing the ledger keeps a store legible. -/
theorem Legible.saved_status (h : Legible store) (status : SyncStatus) :
    Legible (Entity.saved store status) where
  wf := wf_saved h.wf status
  blocks := h.blocks.saved_of_ne status Recorded.model_ne_ledger
  snapshots := h.snapshots.saved_of_ne status Recorded.model_ne_ledger
  nodes := h.nodes.saved_of_ne status Recorded.model_ne_ledger
  stats := h.stats.saved_of_ne status Recorded.model_ne_ledger
  ledger := ⟨some status, noted_saved store status⟩

/-- A block record that is held is one that the store has. -/
theorem Legible.hasBlock (h : Legible store) {k : String} {found : Stored}
    (hfound : store.find (Entity.model BlockRecord) k = some found) :
    ∃ record, found = stored record ∧ k = record.hash ∧ store.HasBlock record := by
  rcases h.blocks k found hfound with ⟨record, rfl, rfl⟩
  exact ⟨record, rfl, rfl, hfound⟩

/-! ## The tip -/

/-- Where a block record stands among the others. -/
theorem HasBlock.place (hwf : store.WF) {record : BlockRecord} (h : store.HasBlock record) :
    ⟨encodeHeight record.height, record.hash⟩ ∈
      (store.model (Entity.model BlockRecord)).placesAt ⟨BlockRecord.byHeight.name, ""⟩ := by
  refine ((hwf _).mem_placesAt _ _).mpr ⟨stored record, h, ?_⟩
  simp [stored, Entity.entries, IndexEntry.unpartitioned]

/-- The place of a record gives its height away. -/
theorem height_of_place (hwf : store.WF) {place : Place} {record : BlockRecord}
    (hplace : place ∈
      (store.model (Entity.model BlockRecord)).placesAt ⟨BlockRecord.byHeight.name, ""⟩)
    (hfound : store.find (Entity.model BlockRecord) place.key = some (stored record)) :
    place.sort = encodeHeight record.height := by
  rcases ((hwf _).mem_placesAt _ _).mp hplace with ⟨found, hheld, hentry⟩
  change store.find (Entity.model BlockRecord) place.key = some found at hheld
  rw [hfound, Option.some.injEq] at hheld
  subst hheld
  simp only [stored, Entity.entries, List.mem_singleton, IndexEntry.mk.injEq,
    IndexEntry.unpartitioned] at hentry
  exact hentry.2.2

/-- The tip is read as it is. -/
theorem Legible.runs_tip? (h : Legible store) :
    Runs (fun behind => behind = store) False (fun tip _ =>
        (tip = none ∧ store.NoBlocks) ∨ ∃ record, tip = some record ∧ store.IsTip record)
      BlockRecord.tip? store := by
  refine runs_first? h.wf rfl rfl (fun hnone => Or.inl ⟨rfl, fun record hrecord => ?_⟩)
    fun place found hgreatest hfound => ?_
  · exact hnone _ (hrecord.place h.wf)
  · rcases h.hasBlock hfound with ⟨tip, rfl, hkey, htip⟩
    refine ⟨tip, rfl, Or.inr ⟨tip, rfl, htip, fun record hrecord => ?_⟩⟩
    -- A higher record would stand at a greater place.
    by_contra hhigher
    have hlt : compare place ⟨encodeHeight record.height, record.hash⟩ = .lt := by
      refine Place.compare_of_lt ?_
      rw [height_of_place h.wf hgreatest.1 hfound]
      exact Text.encodeHeight_lt (UInt32.not_le.mp hhigher)
    rcases hgreatest.2 _ (hrecord.place h.wf) with heq | hgt
    · rw [heq, Std.ReflOrd.compare_self] at hlt
      exact absurd hlt (by decide)
    · rw [Std.OrientedOrd.eq_swap, hgt] at hlt
      exact absurd hlt (by decide)

end MemoryStore

open MemoryStore

/-- A program keeps a store legible and leaves alone what it may not write to. -/
theorem Program.Makes.runs_within {α : Type} {keys : String → String → Prop}
    {program : Program α} {store start : MemoryStore} (h : Makes (Call.Within keys) program)
    (hlegible : Legible store) (hsame : SameOutside keys start store) :
    Runs (fun behind => Legible behind ∧ SameOutside keys start behind) True (fun _ _ => True)
      program store :=
  h.runs ⟨hlegible, hsame⟩ fun _ answer _ _ hrecords hc hbefore hreply =>
    ⟨hbefore.1.reply keys hrecords hc hreply, hbefore.2.trans (.reply hc answer hreply)⟩

end ChainIndex
