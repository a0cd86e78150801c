import ChainIndex.Proofs.Follower.Legible

/-!
# The hooks of a block on a legible store

What the hooks of a block do to the chain that a store holds, whatever the block is and whether
its hooks come to their end or not. Applying lists the transactions of the block and derives
the rest, and not before all of that is there does it write the record of the block. Undoing
removes the record before it touches anything else. In between nothing that belongs to another
block of the chain is written to.

So two points tell everything: right before the record of the block is written, and right after
it is removed.

## Main definitions

* `Lists`: The records of the transactions of a block and their outputs are there.
* `Applying`, `Undoing`: The stores at the points of a run of the hooks.
* `Registry.hooks`: The hooks that apply a block, and those that undo it.
* `Phase.left`: The record of a block that its hooks leave.

## Theorems

* `runs_applying`, `runs_undoing`: Every point of a run of the hooks.
* `runs_hooks`: The block records that the hooks leave.
-/

namespace ChainIndex

open Entity Program MemoryStore

/-- The record of a transaction and those of its outputs are in the store. Of outputs with one
    number there is one record. -/
structure ListsTransaction (store : MemoryStore) (block : Block) (position : Nat)
    (tx : Transaction) : Prop where
  record : store.find (model TransactionRecord) tx.txid
    = some (stored (TransactionRecord.ofTransaction block position tx))
  outputs : ∀ output ∈ tx.outputs, ∃ last ∈ tx.outputs, last.n = output.n ∧
    store.find (model OutputRecord) (OutputRecord.idOf tx.txid output.n)
      = some (stored (OutputRecord.ofOutput tx.txid last))

/-- The records of all transactions of a block and of their outputs are in the store. -/
def Lists (store : MemoryStore) (block : Block) : Prop :=
  ∀ position tx, block.transactions[position]? = some tx →
    ListsTransaction store block position tx

section

variable {store behind : MemoryStore} {block : Block}

/-- A block stays listed as long as nothing is written under its keys. -/
theorem Lists.of_same {keys : String → String → Prop} (h : Lists store block)
    (hsame : SameOutside keys store behind)
    (hfree : ∀ m k, ListingKeys block m k → ¬ keys m k) : Lists behind block := by
  intro position tx hget
  have htx := List.mem_of_getElem? hget
  have hlisted := h position tx hget
  refine ⟨?_, fun output houtput => ?_⟩
  · rw [hsame _ _ (hfree _ _ (Or.inl ⟨rfl, tx, htx, rfl⟩)), hlisted.record]
  · rcases hlisted.outputs output houtput with ⟨last, hlast, hn, hfind⟩
    exact ⟨last, hlast, hn,
      (hsame _ _ (hfree _ _ (Or.inr ⟨rfl, tx, htx, output, houtput, rfl⟩))).trans hfind⟩

/-- The store after a transaction has been written. -/
def listed (store : MemoryStore) (block : Block) (position : Nat) (tx : Transaction) :
    MemoryStore :=
  saved (savedAll store (tx.outputs.map (OutputRecord.ofOutput tx.txid)))
    (TransactionRecord.ofTransaction block position tx)

theorem listsTransaction_listed (store : MemoryStore) (block : Block) (position : Nat)
    (tx : Transaction) : ListsTransaction (listed store block position tx) block position tx := by
  refine ⟨by rw [listed, find_saved, if_pos ⟨rfl, rfl⟩], fun output houtput => ?_⟩
  rw [listed, find_saved, if_neg (by simp [Entity.model]), find_savedAll, if_pos rfl]
  -- The last output with this number is the one that counts.
  rcases hlast : lastStored (tx.outputs.map (OutputRecord.ofOutput tx.txid))
      (OutputRecord.idOf tx.txid output.n) with _ | found
  · exact absurd rfl ((lastStored_eq_none_iff _ _).mp hlast _ (List.mem_map_of_mem houtput))
  · rcases lastStored_mem hlast with ⟨record, hrecord, hkey, rfl⟩
    rcases List.mem_map.mp hrecord with ⟨last, hmem, rfl⟩
    exact ⟨last, hmem, (OutputRecord.idOf_injective hkey).2.symm, by rw [Option.some_or]⟩

/-- Writing a transaction leaves those with another id listed. -/
theorem ListsTransaction.listed {position position' : Nat} {tx tx' : Transaction}
    (h : ListsTransaction store block position tx) (hne : tx.txid ≠ tx'.txid) :
    ListsTransaction (listed store block position' tx') block position tx := by
  refine ⟨?_, fun output houtput => ?_⟩
  · rw [ChainIndex.listed, find_saved, if_neg fun hc => hne hc.2, find_savedAll,
      if_neg (by simp [Entity.model]), h.record]
  · rcases h.outputs output houtput with ⟨last, hlast, hn, hfind⟩
    refine ⟨last, hlast, hn, ?_⟩
    rw [ChainIndex.listed, find_saved, if_neg (by simp [Entity.model]), find_savedAll, if_pos rfl,
      (lastStored_eq_none_iff _ _).mpr, Option.none_or, hfind]
    intro record hrecord hkey
    rcases List.mem_map.mp hrecord with ⟨other, _, rfl⟩
    exact hne (OutputRecord.idOf_injective hkey).1

/-! ## Applying -/

/-- A store at a point at which the block is applied to `store`: its record is not written yet,
    or it has just been written, after everything else. -/
def Applying (store : MemoryStore) (block : Block) (behind : MemoryStore) : Prop :=
  SameOutside (BodyKeys block) store behind ∨
    ∃ last, SameOutside (BodyKeys block) store last ∧
      ((block.transactions.map Transaction.txid).Nodup → Lists last block) ∧
      behind = saved last (BlockRecord.ofBlock block)

/-- Writing the transactions of a block lists them. -/
theorem runs_listing (hlegible : store.Legible)
    (hsame : SameOutside (BodyKeys block) behind store) :
    Runs (fun after => after.Legible ∧ SameOutside (BodyKeys block) behind after) True
      (fun _ after => (block.transactions.map Transaction.txid).Nodup → Lists after block)
      (block.transactions.zipIdx.forM fun (tx, position) => writeTransaction block position tx)
      store := by
  have hkeep : ∀ {α : Type} [Entity α] [Recorded α] [Whole α] (a : α) (t : MemoryStore),
      ListingKeys block (model α) (key a) →
      t.Legible ∧ SameOutside (BodyKeys block) behind t →
      (saved t a).Legible ∧ SameOutside (BodyKeys block) behind (saved t a) :=
    fun a _ hk ht => ⟨ht.1.saved a, ht.2.saved a (Or.inr hk)⟩
  refine (runs_forM (fun done _ after => (block.transactions.map Transaction.txid).Nodup →
      ∀ p ∈ done, ListsTransaction after block p.2 p.1) block.transactions.zipIdx
    ⟨hlegible, hsame⟩ (fun _ p hp => absurd hp List.not_mem_nil) ?_).mono ?_
  · rintro done ⟨tx, position⟩ rest t hitems ht hdone
    have hmem : (tx, position) ∈ block.transactions.zipIdx :=
      hitems ▸ List.mem_append_right done List.mem_cons_self
    have htx := List.fst_mem_of_mem_zipIdx hmem
    refine runs_bind (q := fun _ after => after =
        savedAll t (tx.outputs.map (OutputRecord.ofOutput tx.txid)))
      (runs_saveAll tx.outputs (OutputRecord.ofOutput tx.txid) ht ?_ fun _ => rfl) ?_
    · exact fun output houtput after hafter =>
        hkeep _ after (Or.inr ⟨rfl, tx, htx, output, houtput, rfl⟩) hafter
    · rintro _ after hafter rfl
      refine runs_save hafter (hkeep _ _ (Or.inl ⟨rfl, tx, htx, rfl⟩) hafter) ?_
      intro hnodup p hp
      rcases List.mem_append.mp hp with hbefore | hlast
      · -- What is listed already has another id.
        refine (hdone hnodup p hbefore).listed ?_
        have hids : (block.transactions.zipIdx.map fun p => p.1.txid).Nodup := by
          have hmap : (block.transactions.zipIdx.map fun p => p.1.txid)
              = block.transactions.map Transaction.txid := by
            rw [← List.zipIdx_map_fst 0 block.transactions, List.map_map]
            simp [Function.comp_def]
          rwa [hmap]
        rw [← hitems, List.map_append, List.nodup_append] at hids
        exact hids.2.2 _ (List.mem_map_of_mem hbefore) _ (by simp)
      · rw [List.mem_singleton.mp hlast]
        exact listsTransaction_listed t block position tx
  · intro _ after _ hdone hnodup position tx hget
    refine hdone hnodup (tx, position) ?_
    exact List.mem_zipIdx_iff_getElem?.mpr hget

/-- Every point at which a block is applied. -/
theorem runs_applying (symbol : String) (block : Block) (hlegible : store.Legible) :
    Runs (fun behind => behind.Legible ∧ Applying store block behind) True
      (fun _ behind => ∃ last, SameOutside (BodyKeys block) store last ∧
        ((block.transactions.map Transaction.txid).Nodup → Lists last block) ∧
        behind = saved last (BlockRecord.ofBlock block))
      ((Registry.full symbol).applyBlock block) store := by
  have hweak : ∀ behind, behind.Legible ∧ SameOutside (BodyKeys block) store behind →
      behind.Legible ∧ Applying store block behind := fun _ h => ⟨h.1, Or.inl h.2⟩
  rw [applyBlock_body]
  -- Up to the last write nothing is written but the body of the block.
  refine runs_bind (q := fun _ behind => SameOutside (BodyKeys block) store behind)
    (((((makes_seed symbol block).of_derived block).runs_within hlegible (.refl _ _)).mono
      fun _ _ hmid _ => hmid.2).weaken hweak id) ?_
  intro _ behind hmid hsame
  refine runs_bind (q := fun _ behind => SameOutside (BodyKeys block) store behind ∧
      ((block.transactions.map Transaction.txid).Nodup → Lists behind block))
    (((runs_listing hmid.1 hsame).mono fun _ _ hmid hlists => ⟨hmid.2, hlists⟩).weaken hweak id) ?_
  rintro _ behind hmid ⟨hsame, hlists⟩
  refine runs_bind (q := fun _ behind => SameOutside (BodyKeys block) store behind ∧
      ((block.transactions.map Transaction.txid).Nodup → Lists behind block)) ?_ ?_
  · -- What is derived leaves the transactions listed.
    refine (((makes_deriveBody symbol block).runs_within hmid.1
      (.refl DerivedKeys behind)).mono fun _ after hafter _ => ?_).weaken ?_ id
    · exact ⟨hsame.trans fun m k hk => hafter.2 m k fun hc => hk (Or.inl hc),
        fun hnodup => (hlists hnodup).of_same hafter.2 fun _ _ hk => hk.not_derived⟩
    · exact fun after hafter => ⟨hafter.1,
        Or.inl (hsame.trans fun m k hk => hafter.2 m k fun hc => hk (Or.inl hc))⟩
  rintro _ last hmid ⟨hsame, hlists⟩
  exact runs_save hmid ⟨hmid.1.saved _, Or.inr ⟨last, hsame, hlists, rfl⟩⟩
    ⟨last, hsame, hlists, rfl⟩

/-! ## Undoing -/

/-- A store at a point at which the block is undone from `store`: nothing has been done yet, or
    the record of the block is gone. -/
def Undoing (store : MemoryStore) (block : Block) (behind : MemoryStore) : Prop :=
  behind = store ∨
    SameOutside (BodyKeys block) (removed BlockRecord store block.hash) behind

/-- Every point at which a block is undone. -/
theorem runs_undoing (symbol : String) (block : Block) (hlegible : store.Legible) :
    Runs (fun behind => behind.Legible ∧ Undoing store block behind) True
      (fun _ behind =>
        SameOutside (BodyKeys block) (removed BlockRecord store block.hash) behind)
      ((Registry.full symbol).undoBlock block) store := by
  rw [undoBlock_body]
  have hremoved : (removed BlockRecord store block.hash).Legible := hlegible.removed _
  refine runs_bind (q := fun _ behind => behind = removed BlockRecord store block.hash)
    (runs_remove ⟨hlegible, Or.inl rfl⟩ ⟨hremoved, Or.inr (.refl _ _)⟩ rfl) ?_
  rintro _ behind - rfl
  exact (((makes_undoBody symbol block).runs_within hremoved (.refl _ _)).mono
    fun _ _ hmid _ => hmid.2).weaken (fun _ hmid => ⟨hmid.1, Or.inr hmid.2⟩) id

end

/-! ## Either way -/

/-- The hooks that apply a block, or those that undo it. -/
def Registry.hooks (registry : Registry) : Phase → Block → Program Unit
  | .apply, block => registry.applyBlock block
  | .undo, block => registry.undoBlock block

/-- What is left under the hash of a block when its hooks have come to their end. -/
def Phase.left : Phase → Block → Option Stored
  | .apply, block => some (stored (BlockRecord.ofBlock block))
  | .undo, _ => none

/-- The block records that the hooks of a block leave: they concern its own record only. -/
theorem runs_hooks (symbol : String) (phase : Phase) (block : Block) {store : MemoryStore}
    (hlegible : store.Legible) :
    Runs MemoryStore.Legible True
      (fun _ behind => ∀ k, behind.find (model BlockRecord) k =
        if k = block.hash then phase.left block else store.find (model BlockRecord) k)
      ((Registry.full symbol).hooks phase block) store := by
  have houtside : ∀ k, ¬ BodyKeys block (model BlockRecord) k := fun k hk => hk.ne_block rfl
  cases phase with
  | apply =>
      refine ((runs_applying symbol block hlegible).mono fun _ behind _ hend k => ?_).weaken
        (fun _ hmid => hmid.1) id
      rcases hend with ⟨last, hsame, _, rfl⟩
      rw [find_saved, hsame _ _ (houtside k)]
      exact if_congr (and_iff_right rfl) rfl rfl
  | undo =>
      refine ((runs_undoing symbol block hlegible).mono fun _ behind _ hsame k => ?_).weaken
        (fun _ hmid => hmid.1) id
      rw [hsame _ _ (houtside k), find_removed]
      exact if_congr (and_iff_right rfl) rfl rfl

end ChainIndex
