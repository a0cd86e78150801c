import ChainIndex.Proofs.Indexer.OracleSteps
import ChainIndex.Proofs.Indexer.Restore

/-!
# Undoing a block that was never applied

The hooks that undo a block go by the names that the block gives: ids of transactions, pairs
and heights, ids of oracles and masternodes. Whether what they find under those names comes
from the block is asked of the statistics only. So a block of another branch may be undone
without harm as long as its names lead nowhere, and where they do lead somewhere the record
is deleted or written anew.

There are two ways to be spared. What is deleted was not there: `Cleared` lists the keys that
can be named from the block as such, and those named from its transactions alone follow when
nothing is kept for a transaction that is not listed. What is written was there already: an
oracle is brought back as its newest snapshot shows it, which is how it is if it is there at
all, and a masternode loses a resignation that it does not have. That is what `Harmless` says.

## Main definitions

* `Unchanged`: The store holds the records of another one.
* `Unlisted`, `Unpriced`: What undoing would delete of transactions and aggregates.
* `Cleared`: Undoing the block finds nothing to delete under the names of the block.
* `Apart`: No name in the block leads to anything that undoing would change.

## Theorems

* `Unchanged.runs_of_agree`: It is enough to look at the models that are written to.
* `runs_restore_unapplied`: Bringing back an oracle that was not touched.
* `runs_undoOp_unapplied`: Undoing one operation.
* `runs_undo_unapplied`: Undoing a block that is apart leaves the store unchanged.
* `runs_cleared`: Undoing a block clears its names, whatever was there.
-/

namespace ChainIndex

open Entity Program MemoryStore

/-! ## Unchanged stores -/

/-- The store is in order and holds the records of `base`. -/
structure Unchanged (base t : MemoryStore) : Prop where
  wf : t.WF
  find : ∀ m k, m ≠ ledgerModel → t.find m k = base.find m k

namespace Unchanged

variable {base t : MemoryStore} {α : Type} [Entity α] [Recorded α] {fail : Prop}

theorem of_alike (hwf : t.WF) (h : t.Alike base) : Unchanged base t :=
  ⟨hwf, h.find⟩

/-- Nothing is removed where there is nothing. -/
theorem runs_remove (h : Unchanged base t) {k : String} (hfree : base.find (model α) k = none) :
    Runs MemoryStore.WF fail (fun _ behind => Unchanged base behind) (remove α k) t := by
  refine Program.runs_remove h.wf (wf_removed h.wf k) ⟨wf_removed h.wf k, fun m k' hm => ?_⟩
  rw [find_removed]
  by_cases hk : m = model α ∧ k' = k
  · rw [if_pos hk, hk.1, hk.2, hfree]
  · rw [if_neg hk, h.find m k' hm]

variable (α) in
theorem runs_removeAll {β : Type} (h : Unchanged base t) (items : List β) (f : β → String)
    (hfree : ∀ b ∈ items, base.find (model α) (f b) = none) :
    Runs MemoryStore.WF fail (fun _ behind => Unchanged base behind)
      (items.forM fun b => remove α (f b)) t :=
  runs_forM_keeps (Unchanged base) items h.wf h
    fun b hb _ _ hbehind => hbehind.runs_remove (hfree b hb)

/-- Saving what is held changes nothing. -/
theorem runs_save (h : Unchanged base t) {a : α} (hheld : Held base a) :
    Runs MemoryStore.WF fail (fun _ behind => Unchanged base behind) (save a) t := by
  refine Program.runs_save h.wf (wf_saved h.wf a) ⟨wf_saved h.wf a, fun m k hm => ?_⟩
  rw [find_saved]
  -- Under its own key it is what was there, and no other key is written to.
  by_cases hk : m = model α ∧ k = key a
  · rw [if_pos hk, hk.1, hk.2]
    exact hheld.symm
  · rw [if_neg hk, h.find m k hm]

/-- What is found is held. -/
theorem runs_find? [RoundTrip α] (h : Unchanged base t) (htyped : Typed α base) (k : String) :
    Runs MemoryStore.WF fail
      (fun value behind => behind = t ∧ ∀ a, value = some a → k = key a ∧ Held base a)
      (find? α k) t := by
  refine Program.runs_find? h.wf (fun _ => ⟨rfl, by simp⟩) fun found hfound => ?_
  rw [h.find _ _ Recorded.model_ne_ledger] at hfound
  rcases htyped.exists_held hfound with ⟨a, hstored, hk, hheld⟩
  exact ⟨a, hstored, rfl, fun b heq => Option.some.inj heq ▸ ⟨hk, hheld⟩⟩

/-- Of a program that writes to some models only, it is enough to know what it leaves of
    those. -/
theorem runs_of_agree {models : List String} {program : Program Unit} (h : Unchanged base t)
    (hmakes : Makes (Call.Within (KeysOf models)) program)
    (hagree : Runs MemoryStore.WF True (fun _ behind => behind.Agree models base) program t) :
    Runs MemoryStore.WF True (fun _ behind => Unchanged base behind) program t := by
  refine (hagree.and (hmakes.runs_outside h.wf)).mono
    fun _ behind hwf ⟨hsame, houtside⟩ => ⟨hwf, fun m k hm => ?_⟩
  by_cases hmodel : m ∈ models
  · exact hsame m hmodel k
  · rw [houtside m k hmodel, h.find m k hm]

end Unchanged

section

variable {base t w : MemoryStore} {block : Block} {tx : Transaction} {op : DecodedOp}

/-! ## Operations -/

section

variable (hunknown : ∀ tx ∈ block.transactions, Unknown base tx.txid)
include hunknown

/-- An oracle that was not touched is brought back as it is, memberships that are missing
    included. One that only the block appoints has nothing to be brought back from. -/
theorem runs_restore_unapplied (hbase : Coherent base) (hharmless : Harmless base block)
    (hmem : (tx, op) ∈ block.ops) {id : String} (hid : op.restored = some id) (hwf : w.WF)
    (hsnapshots : ∀ k, w.find (model OracleSnapshot) k = base.find (model OracleSnapshot) k)
    (horacles : ∀ k, w.find (model Oracle) k = base.find (model Oracle) k)
    (erased : List String) (hown : ∀ k ∈ erased, ∃ pair, k = Membership.idOf pair id)
    (hmemberships : ∀ k, w.find (model Membership) k =
      if k ∈ erased then none else base.find (model Membership) k) :
    Runs MemoryStore.WF True (fun _ behind => behind.Agree oracleModels base)
      (Oracle.restore id block tx) w := by
  rcases hlive : base.find (model Oracle) id with _ | found
  · -- The oracle is one of the block, so nothing in the store is about it.
    have hcreates := (hharmless.oracles _ hmem id hid).resolve_left (not_not_intro hlive)
    rcases List.append_of_mem hmem with ⟨init, rest, hops⟩
    rcases Block.mem_of_createsBefore hops hcreates with ⟨q, hq, _, rfl⟩
    have hnothing := hunknown q.1
      (Block.mem_transactions_of_mem_ops (hops ▸ List.mem_append_left _ hq))
    have htyped : Typed OracleSnapshot w := hbase.snapshots.congr hsnapshots
    refine runs_bind (q := fun value behind => behind = w ∧ value = none)
      (runs_first? hwf rfl hwf (fun _ => ⟨rfl, rfl⟩) fun place found hgreatest _ => ?_) ?_
    · rcases OracleSnapshot.place_of_mem hwf htyped hgreatest.1 with ⟨s, hs, hsid, _⟩
      exact absurd hsid (hnothing.history s.id s (hsnapshots s.id ▸ hs))
    · rintro value behind - ⟨rfl, rfl⟩
      simp only [if_pos hcreates]
      refine runs_pure hwf fun m hm k => ?_
      simp only [oracleModels, List.mem_cons, List.not_mem_nil, or_false] at hm
      rcases hm with rfl | rfl | rfl
      · exact hsnapshots k
      · exact horacles k
      · rw [hmemberships]
        split
        · next hk =>
          rcases hown k hk with ⟨pair, rfl⟩
          exact (hnothing.membership pair).symm
        · rfl
  · rcases hbase.oracle_typed hlive with ⟨previous, rfl, _, _⟩
    exact runs_restored hbase hlive block tx hwf hsnapshots (fun k _ => horacles k) hown
      hmemberships

/-- Undoing one operation of a block that was not applied. -/
theorem runs_undoOp_unapplied (symbol : String) (hbase : Coherent base)
    (hnodes : Typed Masternode base) (hharmless : Harmless base block)
    (hmem : (tx, op) ∈ block.ops) (h : Unchanged base t) :
    Runs MemoryStore.WF True (fun _ behind => Unchanged base behind)
      ((Indexer.ofTag symbol op.tag).hook .undo (.transaction tx op) block) t := by
  have hnothing := hunknown tx (Block.mem_transactions_of_mem_ops hmem)
  have hmakes := makes_operation_of_tag symbol block tx op .undo
  cases htag : op.tag with
  -- What is named by the transaction alone is not there.
  | createToken => exact h.runs_remove hnothing.token
  | createMasternode => exact h.runs_remove hnothing.node
  | setOracleData =>
      refine runs_bind (runs_ofExcept_ok h.wf) ?_
      rintro data behind - ⟨rfl, _⟩
      exact h.runs_removeAll PriceFeed data.feeds _ fun feed _ => hnothing.feed _ _
  -- What the payload names may be there, and is read before it is written.
  | resignMasternode =>
      refine runs_bind (runs_ofExcept_ok h.wf) ?_
      rintro data behind - ⟨rfl, hdata⟩
      have hresigned := DecodedOp.resigned_of_decode htag hdata
      refine runs_bind (h.runs_find? hnodes data.nodeId) ?_
      rintro value after - ⟨rfl, hvalue⟩
      cases value with
      | none =>
          simp only
          split
          · exact runs_pure h.wf h
          · exact runs_throw h.wf trivial
      | some node =>
          rcases hvalue node rfl with ⟨hid, hheld⟩
          -- It is not resigned, so it is written as it is.
          have hsame := hharmless.nodes _ hmem data.nodeId hresigned node (by rw [hid]; exact hheld)
          exact h.runs_save (a := node.unresigned) (hsame.symm ▸ hheld)
  | appointOracle =>
      refine runs_bind (runs_ofExcept_ok h.wf) ?_
      rintro data behind - ⟨rfl, _⟩
      refine runs_bind (h.runs_remove (hnothing.snapshot _ _)) fun _ after _ hafter => ?_
      refine runs_bind (hafter.runs_removeAll Membership data.priceFeeds _
        fun pair _ => hnothing.membership pair) fun _ last _ hlast => ?_
      exact hlast.runs_remove hnothing.oracle
  | updateOracle =>
      rw [htag] at hmakes
      refine h.runs_of_agree hmakes (runs_bind (runs_ofExcept_ok h.wf) ?_)
      rintro data behind - ⟨rfl, hdata⟩
      have hid := DecodedOp.restored_of_updateOracle htag hdata
      refine runs_bind (h.runs_remove (hnothing.snapshot _ _)) fun _ after _ hafter => ?_
      refine runs_bind (runs_eraseMemberships_wf hafter.wf _ _) ?_
      rintro _ last hlast rfl
      -- The memberships may have been there, and are among those that are written again.
      refine runs_restore_unapplied hunknown hbase hharmless hmem hid hlast (fun k => ?_)
        (fun k => ?_) (data.priceFeeds.map fun pair => Membership.idOf pair data.oracleId)
        (fun k hk => ?_) fun k => ?_
      · rw [find_removedAll, if_neg (by simp [Entity.model]), hafter.find _ _ (by decide)]
      · rw [find_removedAll, if_neg (by simp [Entity.model]), hafter.find _ _ (by decide)]
      · rcases List.mem_map.mp hk with ⟨pair, _, rfl⟩
        exact ⟨pair, rfl⟩
      · rw [find_removedAll, hafter.find _ _ (by decide)]
        simp only [true_and]
  -- A removal writes nothing that undoing it would erase first.
  | removeOracle =>
      rw [htag] at hmakes
      refine h.runs_of_agree hmakes (runs_bind (runs_ofExcept_ok h.wf) ?_)
      rintro data behind - ⟨rfl, hdata⟩
      exact runs_restore_unapplied hunknown hbase hharmless hmem
        (DecodedOp.restored_of_removeOracle htag hdata) h.wf (fun k => h.find _ k (by decide))
        (fun k => h.find _ k (by decide)) [] (by simp)
        fun k => by simpa using h.find _ k (by decide)

end

/-! ## The block -/

/-- No pair that the block feeds has an aggregate at the height of the block. -/
def Unpriced (block : Block) (t : MemoryStore) : Prop :=
  ∀ pairs, fedPairs block = .ok pairs → ∀ pair ∈ pairs,
    t.find (model PriceAggregate) (PriceAggregate.idOf pair block.height) = none

/-- None of the transactions of the block is stored. -/
def Unlisted (block : Block) (t : MemoryStore) : Prop :=
  ∀ tx ∈ block.transactions, t.find (model TransactionRecord) tx.txid = none

/-- Nothing is in the store under the names that the block gives as such: its transactions,
    its pairs at its height, and the native token if it is a first block. -/
structure Cleared (block : Block) (t : MemoryStore) : Prop where
  transactions : Unlisted block t
  aggregates : Unpriced block t
  native : block.height = 0 → t.find (model Token) Token.nativeId = none

/-- No name in the block leads to a record that undoing the block would change. -/
structure Apart (base : MemoryStore) (block : Block) : Prop
  extends Harmless base block, Cleared block base

theorem Unpriced.congr (h : Unpriced block base)
    (hkept : ∀ k, t.find (model PriceAggregate) k = base.find (model PriceAggregate) k) :
    Unpriced block t :=
  fun pairs hpairs pair hpair => (hkept _).trans (h pairs hpairs pair hpair)

theorem Unlisted.congr (h : Unlisted block base)
    (hkept : ∀ k, t.find (model TransactionRecord) k = base.find (model TransactionRecord) k) :
    Unlisted block t :=
  fun tx htx => (hkept _).trans (h tx htx)

/-- The same is cleared where the same is held. -/
theorem Cleared.congr (h : Cleared block base)
    (hfind : ∀ m k, m ≠ ledgerModel → t.find m k = base.find m k) : Cleared block t where
  transactions := h.transactions.congr fun k => hfind _ k (by decide)
  aggregates := h.aggregates.congr fun k => hfind _ k (by decide)
  native hheight := (hfind _ _ (by decide)).trans (h.native hheight)

/-- Statistics of another block are not deleted. -/
theorem runs_discard_unapplied (htyped : Typed MasternodeStats base)
    (hstats : ∀ stats : MasternodeStats, Held base stats → stats.block.hash ≠ block.hash)
    (h : Unchanged base t) {fail : Prop} :
    Runs MemoryStore.WF fail (fun _ behind => Unchanged base behind)
      (MasternodeStats.discard block) t := by
  refine runs_bind (h.runs_find? htyped (MasternodeStats.keyAt block.height)) ?_
  rintro value behind - ⟨rfl, hvalue⟩
  cases value with
  | none => exact runs_pure h.wf h
  | some stats =>
      simp only [if_neg (hstats stats (hvalue stats rfl).2)]
      exact runs_pure h.wf h

/-- Undoing a block that is apart leaves the store unchanged. -/
theorem runs_undo_unapplied (symbol : String) (hbase : Coherent base)
    (hnodes : Typed Masternode base) (htyped : Typed MasternodeStats base)
    (hunknown : ∀ tx ∈ block.transactions, Unknown base tx.txid)
    (hrecord : base.find (model BlockRecord) block.hash = none)
    (hstats : ∀ stats : MasternodeStats, Held base stats → stats.block.hash ≠ block.hash)
    (hapart : Apart base block) (h : Unchanged base t) :
    Runs MemoryStore.WF True (fun _ behind => Unchanged base behind)
      ((Registry.full symbol).undoBlock block) t := by
  rw [Registry.undoBlock_full]
  refine runs_bind (h.runs_remove hrecord) fun _ behind _ hbehind => ?_
  -- The statistics are compared, the aggregates are not.
  refine runs_bind (runs_discard_unapplied htyped hstats hbehind) fun _ behind _ hbehind => ?_
  refine runs_bind (q := fun _ after => Unchanged base after) ?_ fun _ behind _ hbehind => ?_
  · refine runs_bind (runs_ofExcept_ok hbehind.wf) ?_
    rintro pairs after - ⟨rfl, hpairs⟩
    exact hbehind.runs_removeAll PriceAggregate pairs.reverse _
      fun pair hpair => hapart.aggregates pairs hpairs pair (List.mem_reverse.mp hpair)
  refine runs_bind (runs_forM_keeps (Unchanged base) block.ops.reverse hbehind.wf hbehind
    fun p hp after _ hafter => runs_undoOp_unapplied hunknown symbol hbase hnodes
      hapart.toHarmless (List.mem_reverse.mp hp) hafter) fun _ behind _ hbehind => ?_
  refine runs_bind (runs_forM_keeps (Unchanged base) block.transactions.reverse hbehind.wf hbehind
    fun tx htx after _ hafter => ?_) fun _ behind _ hbehind => ?_
  · have hnothing := hunknown tx (List.mem_reverse.mp htx)
    refine runs_bind (hafter.runs_remove hnothing.transaction) fun _ last _ hlast => ?_
    exact hlast.runs_removeAll OutputRecord _ _ fun output _ => hnothing.output output.n
  · by_cases hheight : block.height = 0
    · rw [if_pos hheight]
      exact hbehind.runs_remove (hapart.native hheight)
    · rw [if_neg hheight]
      exact runs_pure hbehind.wf hbehind

/-! ## What is cleared -/

theorem runs_eraseTransaction_wf {fail : Prop} (hwf : t.WF) (tx : Transaction) :
    Runs MemoryStore.WF fail (fun _ behind => behind =
        removedAll OutputRecord (removed TransactionRecord t tx.txid)
          (tx.outputs.reverse.map fun output => OutputRecord.idOf tx.txid output.n))
      (eraseTransaction tx) t := by
  refine runs_bind (runs_remove_wf hwf tx.txid) ?_
  rintro _ after hafter rfl
  exact runs_removeAll OutputRecord tx.outputs.reverse
    (fun output => OutputRecord.idOf tx.txid output.n) hafter
    (fun _ _ _ hbehind => wf_removed hbehind _) fun _ => rfl

/-- The aggregates are deleted, whichever block they are of. -/
theorem runs_unprice (hwf : t.WF) :
    Runs MemoryStore.WF True (fun _ behind => Unpriced block behind)
      (Indexer.setOracleData.hook .undo .blockEnd block) t := by
  refine runs_bind (runs_ofExcept_ok hwf) ?_
  rintro pairs after hafter ⟨rfl, hpairs⟩
  refine runs_removeAll PriceAggregate pairs.reverse
    (fun pair => PriceAggregate.idOf pair block.height) hafter
    (fun _ _ _ hlast => wf_removed hlast _) fun _ pairs' hpairs' pair hpair => ?_
  rw [hpairs, Except.ok.injEq] at hpairs'
  subst hpairs'
  rw [find_removedAll, if_pos ⟨rfl, List.mem_map_of_mem (List.mem_reverse.mpr hpair)⟩]

/-- No operation writes an aggregate. -/
theorem runs_undoOps_unpriced (symbol : String) (hwf : t.WF) (h : Unpriced block t) :
    Runs MemoryStore.WF True (fun _ behind => Unpriced block behind)
      (block.ops.reverse.forM fun (tx, op) =>
        (Indexer.ofTag symbol op.tag).hook .undo (.transaction tx op) block) t := by
  refine runs_forM_keeps (Unpriced block) block.ops.reverse hwf h fun p _ after hafter hgone => ?_
  have hother : model PriceAggregate ∉ p.2.tag.models := by cases p.2.tag <;> decide
  exact ((makes_operation_of_tag symbol block p.1 p.2 .undo).runs_outside hafter).mono
    fun _ _ _ hkept => hgone.congr fun k => hkept _ k hother

/-- The transactions are deleted one by one, and what is gone stays gone. -/
theorem runs_unlist (hwf : t.WF) (h : Unpriced block t) :
    Runs MemoryStore.WF True (fun _ behind => Unlisted block behind ∧ Unpriced block behind)
      (block.transactions.reverse.forM eraseTransaction) t := by
  refine (runs_forM (fun done _ after =>
    (∀ tx ∈ done, after.find (model TransactionRecord) tx.txid = none) ∧ Unpriced block after)
    block.transactions.reverse hwf ⟨by simp, h⟩ ?_).mono
    fun _ _ _ hgone => ⟨fun tx htx => hgone.1 tx (List.mem_reverse.mpr htx), hgone.2⟩
  rintro done tx rest after - hafter ⟨hdone, hgone⟩
  refine (runs_eraseTransaction_wf hafter tx).mono ?_
  rintro _ last - rfl
  refine ⟨fun tx' htx' => ?_, hgone.congr fun k => ?_⟩
  · -- Two transactions with one id have one record, so the ids are compared.
    rw [find_removedAll, if_neg (by simp [Entity.model]), find_removed]
    by_cases hk : tx'.txid = tx.txid
    · rw [if_pos ⟨rfl, hk⟩]
    · rcases List.mem_append.mp htx' with hbefore | hlast
      · rw [if_neg fun hc => hk hc.2, hdone tx' hbefore]
      · exact absurd (congrArg Transaction.txid (List.mem_singleton.mp hlast)) hk
  · rw [find_removedAll, if_neg (by simp [Entity.model]), find_removed,
      if_neg (by simp [Entity.model])]

/-- Undoing a block clears the names that it gives, whatever was there under them. -/
theorem runs_cleared (symbol : String) (block : Block) (hwf : t.WF) :
    Runs MemoryStore.WF True (fun _ behind => Cleared block behind)
      ((Registry.full symbol).undoBlock block) t := by
  rw [Registry.undoBlock_full]
  refine runs_bind (runs_remove_wf hwf block.hash) fun _ behind hbehind _ => ?_
  refine runs_bind ((makes_statistics block .undo).runs_outside hbehind)
    fun _ behind hbehind _ => ?_
  refine runs_bind (runs_unprice hbehind) fun _ behind hbehind hunpriced => ?_
  refine runs_bind (runs_undoOps_unpriced symbol hbehind hunpriced)
    fun _ behind hbehind hunpriced => ?_
  refine runs_bind (runs_unlist hbehind hunpriced) ?_
  rintro _ behind hbehind ⟨hunlisted, hunpriced⟩
  by_cases hheight : block.height = 0
  · -- The native token goes last, and nothing else with it.
    rw [if_pos hheight]
    refine (runs_remove_wf hbehind Token.nativeId).mono ?_
    rintro _ last - rfl
    refine ⟨hunlisted.congr fun k => ?_, hunpriced.congr fun k => ?_, fun _ => ?_⟩
    · rw [find_removed, if_neg (by simp [Entity.model])]
    · rw [find_removed, if_neg (by simp [Entity.model])]
    · rw [find_removed, if_pos ⟨rfl, rfl⟩]
  · rw [if_neg hheight]
    exact runs_pure hbehind ⟨hunlisted, hunpriced, fun hc => absurd hc hheight⟩

end

end ChainIndex
