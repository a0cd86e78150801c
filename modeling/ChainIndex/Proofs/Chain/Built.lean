import ChainIndex.Proofs.Chain.Replay
import ChainIndex.Proofs.Indexer.Apply
import Mathlib.Data.List.Induction

/-!
# Stores built from chains

What holds of a store that a chain was indexed into. Every key in it can be traced back to
the chain: to an id of a transaction, a hash or a height. So a block that goes on from the
chain finds none of the keys taken that it will create, and that it is applied within its
footprint and can be undone again is a matter of the block alone.

`Built` is what one more block preserves, and so it holds of every store that is
built by indexing a chain.

## Main definitions

* `Origin`: Where a key comes from.
* `Built`: What holds of a store that a chain was indexed into.

## Theorems

* `Built.fresh`: The next block finds its keys free.
* `Built.runs_applyBlock`: Indexing the next block.
* `built_of_build`: What indexing a chain leaves is built from it.
-/

namespace ChainIndex

open Entity Program Chain

/-- Where a key comes from: a hash, a height or a transaction of the chain. -/
def Origin (chain : List Block) (m k : String) : Prop :=
  (m = model BlockRecord ∧ ∃ block ∈ chain, k = block.hash) ∨
  (m = model MasternodeStats ∧ ∃ block ∈ chain, k = MasternodeStats.keyAt block.height) ∨
  (m = model PriceAggregate ∧ ∃ block ∈ chain, ∃ pair, k = PriceAggregate.idOf pair block.height) ∨
  (m = model TransactionRecord ∧ k ∈ txids chain) ∨
  (m = model OutputRecord ∧ ∃ txid ∈ txids chain, ∃ n, k = OutputRecord.idOf txid n) ∨
  (m = model Token ∧ (chain ≠ [] ∧ k = Token.nativeId ∨ k ∈ txids chain)) ∨
  (m = model Masternode ∧ k ∈ txids chain) ∨
  (m = model PriceFeed ∧ ∃ txid ∈ txids chain, ∃ pair oracleId,
    k = PriceFeed.idOf pair oracleId txid) ∨
  (m = model Oracle ∧ k ∈ txids chain) ∨
  (m = model OracleSnapshot ∧ ∃ txid ∈ txids chain, ∃ oracleId height,
    k = OracleSnapshot.idOf oracleId height txid) ∨
  (m = model Membership ∧ ∃ txid ∈ txids chain, ∃ pair, k = Membership.idOf pair txid)

section Origin

variable {chain : List Block} {block : Block} {m k : String}

theorem origin_block : Origin chain (model BlockRecord) k ↔ ∃ block ∈ chain, k = block.hash := by
  simp [Origin, Entity.model]

theorem origin_stats : Origin chain (model MasternodeStats) k ↔
    ∃ block ∈ chain, k = MasternodeStats.keyAt block.height := by
  simp [Origin, Entity.model]

theorem origin_aggregate : Origin chain (model PriceAggregate) k ↔
    ∃ block ∈ chain, ∃ pair, k = PriceAggregate.idOf pair block.height := by
  simp [Origin, Entity.model]

theorem origin_transaction : Origin chain (model TransactionRecord) k ↔ k ∈ txids chain := by
  simp [Origin, Entity.model]

theorem origin_output : Origin chain (model OutputRecord) k ↔
    ∃ txid ∈ txids chain, ∃ n, k = OutputRecord.idOf txid n := by
  simp [Origin, Entity.model]

theorem origin_token : Origin chain (model Token) k ↔
    chain ≠ [] ∧ k = Token.nativeId ∨ k ∈ txids chain := by
  simp [Origin, Entity.model]

theorem origin_masternode : Origin chain (model Masternode) k ↔ k ∈ txids chain := by
  simp [Origin, Entity.model]

theorem origin_feed : Origin chain (model PriceFeed) k ↔
    ∃ txid ∈ txids chain, ∃ pair oracleId, k = PriceFeed.idOf pair oracleId txid := by
  simp [Origin, Entity.model]

theorem origin_oracle : Origin chain (model Oracle) k ↔ k ∈ txids chain := by
  simp [Origin, Entity.model]

theorem origin_snapshot : Origin chain (model OracleSnapshot) k ↔
    ∃ txid ∈ txids chain, ∃ oracleId height, k = OracleSnapshot.idOf oracleId height txid := by
  simp [Origin, Entity.model]

theorem origin_membership : Origin chain (model Membership) k ↔
    ∃ txid ∈ txids chain, ∃ pair, k = Membership.idOf pair txid := by
  simp [Origin, Entity.model]

theorem mem_txids_snoc {txid : String} (h : txid ∈ txids chain) :
    txid ∈ txids (chain ++ [block]) :=
  txids_snoc chain block ▸ List.mem_append_left _ h

/-- What comes from a chain comes from the chain with one more block. -/
theorem Origin.snoc (h : Origin chain m k) : Origin (chain ++ [block]) m k := by
  have hblocks : ∀ {other}, other ∈ chain → other ∈ chain ++ [block] :=
    fun hmem => List.mem_append_left _ hmem
  rcases h with ⟨rfl, other, ho, rfl⟩ | ⟨rfl, other, ho, rfl⟩ | ⟨rfl, other, ho, pair, rfl⟩ |
    ⟨rfl, ht⟩ | ⟨rfl, txid, ht, n, rfl⟩ | ⟨rfl, ht⟩ | ⟨rfl, ht⟩ |
    ⟨rfl, txid, ht, pair, oracleId, rfl⟩ | ⟨rfl, ht⟩ | ⟨rfl, txid, ht, oracleId, height, rfl⟩ |
    ⟨rfl, txid, ht, pair, rfl⟩
  · exact origin_block.mpr ⟨other, hblocks ho, rfl⟩
  · exact origin_stats.mpr ⟨other, hblocks ho, rfl⟩
  · exact origin_aggregate.mpr ⟨other, hblocks ho, pair, rfl⟩
  · exact origin_transaction.mpr (mem_txids_snoc ht)
  · exact origin_output.mpr ⟨txid, mem_txids_snoc ht, n, rfl⟩
  · exact origin_token.mpr (ht.imp (fun hnative => ⟨by simp, hnative.2⟩) mem_txids_snoc)
  · exact origin_masternode.mpr (mem_txids_snoc ht)
  · exact origin_feed.mpr ⟨txid, mem_txids_snoc ht, pair, oracleId, rfl⟩
  · exact origin_oracle.mpr (mem_txids_snoc ht)
  · exact origin_snapshot.mpr ⟨txid, mem_txids_snoc ht, oracleId, height, rfl⟩
  · exact origin_membership.mpr ⟨txid, mem_txids_snoc ht, pair, rfl⟩

/-- The keys of a block as such come from a chain that ends in it. -/
theorem origin_of_blockKeys (h : BlockKeys block m k) : Origin (chain ++ [block]) m k := by
  have hlast : block ∈ chain ++ [block] := List.mem_concat_self
  rcases h with ⟨rfl, rfl⟩ | ⟨rfl, rfl⟩ | ⟨rfl, _, _, pair, _, rfl⟩ | ⟨rfl, tx, htx, rfl⟩ |
    ⟨rfl, tx, htx, output, _, rfl⟩ | ⟨rfl, _, rfl⟩
  · exact origin_block.mpr ⟨block, hlast, rfl⟩
  · exact origin_stats.mpr ⟨block, hlast, rfl⟩
  · exact origin_aggregate.mpr ⟨block, hlast, pair, rfl⟩
  · exact origin_transaction.mpr (mem_txids hlast htx)
  · exact origin_output.mpr ⟨tx.txid, mem_txids hlast htx, output.n, rfl⟩
  · exact origin_token.mpr (Or.inl ⟨by simp, rfl⟩)

end Origin

/-- What holds of a store that a chain was indexed into. -/
structure Built (chain : List Block) (t : MemoryStore) : Prop where
  coherent : Coherent t
  nodes : Typed Masternode t
  origin : ∀ m k, m ≠ ledgerModel → t.find m k ≠ none → Origin chain m k
  snapshots : ∀ k (s : OracleSnapshot), t.find (model OracleSnapshot) k = some (stored s) →
    s.block.height.toNat < chain.length ∧ s.oracleId ∈ txids chain
  resigned : ∀ k (node : Masternode), t.find (model Masternode) k = some (stored node) →
    node.unresigned ≠ node → ∃ block ∈ chain, ∃ p ∈ block.ops, p.2.resigned = some k
  blocks : ∀ k found, t.find (model BlockRecord) k = some found ↔
    ∃ block ∈ chain, k = block.hash ∧ found = stored (BlockRecord.ofBlock block)

theorem built_empty : Built [] .empty where
  coherent := ⟨MemoryStore.wf_empty, by simp [Typed], by simp, by simp⟩
  nodes := by simp [Typed]
  origin := by simp
  snapshots := by simp
  resigned := by simp
  blocks := by simp

namespace Built

variable {chain : List Block} {block : Block} {t after : MemoryStore}

/-- A store that holds the same records is built from the same chain. -/
theorem alike (h : Built chain t) (hwf : after.WF) (halike : t.Alike after) :
    Built chain after := by
  have hfind : ∀ m k : String, m ≠ ledgerModel → after.find m k = t.find m k :=
    fun m k hm => (halike.find m k hm).symm
  refine ⟨h.coherent.congr hwf (fun k => hfind _ k (by decide)) (fun k => hfind _ k (by decide))
    (fun k => hfind _ k (by decide)), fun k found hfound => ?_, fun m k hm hfound => ?_,
    fun k s hs => ?_, fun k node hnode => ?_, fun k found => ?_⟩
  · rw [hfind _ k (by decide)] at hfound
    exact h.nodes k found hfound
  · rw [hfind m k hm] at hfound
    exact h.origin m k hm hfound
  · rw [hfind _ k (by decide)] at hs
    exact h.snapshots k s hs
  · rw [hfind _ k (by decide)] at hnode
    exact h.resigned k node hnode
  · rw [hfind _ k (by decide)]
    exact h.blocks k found

/-- What no record comes from is not in the store. -/
theorem find_eq_none (h : Built chain t) {m k : String} (hm : m ≠ ledgerModel)
    (hnot : ¬ Origin chain m k) : t.find m k = none := by
  by_contra hc
  exact hnot (h.origin m k hm hc)

/-- Nothing is kept for a transaction that is not on the chain. -/
theorem unknown (h : Built chain t) (hclean : Clean chain) {txid : String}
    (hdashFree : Text.DashFree txid) (hnative : txid ≠ Token.nativeId)
    (hnot : txid ∉ txids chain) : Unknown t txid := by
  have hdash : ∀ {other : String}, other ∈ txids chain →
      ∀ a b : String, a ++ "-" ++ txid ≠ b ++ "-" ++ other := by
    intro other hother a b hc
    have heq := (Text.append_dash_injective hdashFree (hclean.dashFree other hother) hc).2
    exact hnot (heq ▸ hother)
  refine
    { transaction := h.find_eq_none (by decide) fun hc => hnot (origin_transaction.mp hc)
      output := fun n => h.find_eq_none (by decide) ?_
      token := h.find_eq_none (by decide) fun hc =>
        (origin_token.mp hc).elim (fun hseeded => hnative hseeded.2) hnot
      node := h.find_eq_none (by decide) fun hc => hnot (origin_masternode.mp hc)
      feed := fun pair oracleId => h.find_eq_none (by decide) ?_
      oracle := h.find_eq_none (by decide) fun hc => hnot (origin_oracle.mp hc)
      snapshot := fun oracleId height => h.find_eq_none (by decide) ?_
      membership := fun pair => h.find_eq_none (by decide) ?_
      history := fun k s hs heq => hnot (heq ▸ (h.snapshots k s hs).2) }
  · intro hc
    rcases origin_output.mp hc with ⟨other, hother, n', heq⟩
    have hsame := (Text.append_dash_injective (Text.dashFree_toString _)
      (Text.dashFree_toString _) heq).1
    exact hnot (hsame ▸ hother)
  · intro hc
    rcases origin_feed.mp hc with ⟨other, hother, pair', oracleId', heq⟩
    exact hdash hother _ _ heq
  · intro hc
    rcases origin_snapshot.mp hc with ⟨other, hother, oracleId', height', heq⟩
    exact hdash hother _ _ heq
  · intro hc
    rcases origin_membership.mp hc with ⟨other, hother, pair', heq⟩
    exact hdash hother _ _ heq

/-- The next block finds its keys free. -/
theorem fresh (h : Built chain t) (hclean : Clean (chain ++ [block])) : Fresh t block := by
  have hheight : ∀ {other : Block}, other ∈ chain →
      toString block.height.toNat ≠ toString other.height.toNat := by
    intro other hmem hc
    exact hclean.height_ne hmem (UInt32.toNat_inj.mp (Text.toString_injective hc).symm)
  have hunknown : ∀ tx ∈ block.transactions, Unknown t tx.txid := fun tx htx =>
    h.unknown hclean.of_snoc (hclean.dashFree_last htx)
      (hclean.notNative _ (mem_txids List.mem_concat_self htx)) (hclean.txid_not_mem htx)
  refine
    { dashFree := fun tx htx => hclean.dashFree_last htx
      keys := fun m k hkey => ?_
      token := fun tx htx => (hunknown tx htx).token
      node := fun tx htx => (hunknown tx htx).node
      feed := fun tx htx => (hunknown tx htx).feed
      oracle := fun tx htx => (hunknown tx htx).oracle
      snapshot := fun tx htx oracleId => (hunknown tx htx).snapshot oracleId block.height
      membership := fun tx htx => (hunknown tx htx).membership
      history := fun k s hs tx htx => (hunknown tx htx).history k s hs }
  rcases hkey with ⟨rfl, rfl⟩ | ⟨rfl, rfl⟩ | ⟨rfl, pairs, _, pair, _, rfl⟩ | ⟨rfl, tx, htx, rfl⟩ |
    ⟨rfl, tx, htx, output, _, rfl⟩ | ⟨rfl, hzero, rfl⟩
  · refine h.find_eq_none (by decide) fun hc => ?_
    rcases origin_block.mp hc with ⟨other, hmem, heq⟩
    exact hclean.hash_ne hmem heq.symm
  · refine h.find_eq_none (by decide) fun hc => ?_
    rcases origin_stats.mp hc with ⟨other, hmem, heq⟩
    exact hheight hmem heq
  · refine h.find_eq_none (by decide) fun hc => ?_
    rcases origin_aggregate.mp hc with ⟨other, hmem, pair', heq⟩
    exact hheight hmem (Text.append_dash_injective (Text.dashFree_toString _)
      (Text.dashFree_toString _) heq).2
  · exact (hunknown tx htx).transaction
  · exact (hunknown tx htx).output output.n
  · -- Only a chain without blocks has a block of height zero behind it.
    have hlength := hclean.numbered.height_last
    rw [hzero] at hlength
    have hnil : chain = [] := List.length_eq_zero_iff.mp hlength.symm
    subst hnil
    refine h.find_eq_none (by decide) fun hc => ?_
    rcases origin_token.mp hc with ⟨hne, _⟩ | hmem
    · exact hne rfl
    · exact absurd hmem (by simp [txids])

/-- The snapshots come from lower blocks than the next one. -/
theorem below (h : Built chain t) (hclean : Clean (chain ++ [block])) (k : String)
    (s : OracleSnapshot) (hs : t.find (model OracleSnapshot) k = some (stored s)) :
    s.block.height < block.height := by
  rw [UInt32.lt_iff_toNat_lt, hclean.numbered.height_last]
  exact (h.snapshots k s hs).1

/-- An oracle that a block is about is one of the chain, that block included. -/
theorem oracle_mem (h : Built chain t) {id : String} {tag : OpTag} {txid : String}
    (hroot : t.find (model Oracle) id ≠ none ∨ block.createsBefore tag id txid = true) :
    id ∈ txids (chain ++ [block]) := by
  rcases hroot with hbase | hcreates
  · exact mem_txids_snoc (origin_oracle.mp (h.origin _ id (by decide) hbase))
  · unfold Block.createsBefore at hcreates
    rcases List.any_eq_true.mp hcreates with ⟨q, hq, hcreates⟩
    have hmem := Block.mem_transactions_of_mem_ops ((List.takeWhile_sublist _).subset hq)
    have hid : q.1.txid = id := by
      simp only [Bool.and_eq_true, beq_iff_eq] at hcreates
      exact hcreates.2
    exact hid ▸ mem_txids List.mem_concat_self hmem

/-- What is held under the keys of an operation comes from the chain with the block. -/
theorem origin_of_touches (h : Built chain t) (happlied : Applied t block block.ops after)
    {p : Transaction × DecodedOp} (hp : p ∈ block.ops) {m k : String}
    (htouches : Touches t block p.1 p.2 m k) (hnew : t.find m k = none)
    (hfound : after.find m k ≠ none) : Origin (chain ++ [block]) m k := by
  have hops : ∀ q ∈ block.ops, q.1.txid ∈ txids (chain ++ [block]) := fun q hq =>
    mem_txids List.mem_concat_self (Block.mem_transactions_of_mem_ops hq)
  have hlive : ∀ id, after.find (model Oracle) id ≠ none → id ∈ txids (chain ++ [block]) := by
    intro id hid
    rcases happlied.rooted id hid with hbase | ⟨q, hq, _, rfl⟩
    · exact mem_txids_snoc (origin_oracle.mp (h.origin _ id (by decide) hbase))
    · exact hops q hq
  rcases htouches with ⟨rfl, _, rfl⟩ | ⟨rfl, _⟩ | ⟨rfl, data, _, feed, _, rfl⟩ | ⟨rfl, _⟩ |
    ⟨rfl, oracle, _, rfl⟩ | ⟨rfl, _⟩
  · exact origin_token.mpr (Or.inr (hops p hp))
  · -- A masternode is resigned only if it is there, so a new one has been created.
    rcases Option.ne_none_iff_exists'.mp hfound with ⟨found, hstored⟩
    rcases happlied.between.admitted h.nodes hstored with ⟨node, _, rfl, hadmitted⟩
    rcases hadmitted with ⟨before, hbefore, _⟩ | ⟨q, hq, _, hid⟩
    · rw [hnew] at hbefore
      exact absurd hbefore (by simp)
    · exact origin_masternode.mpr (hid ▸ hops q hq)
  · exact origin_feed.mpr ⟨_, hops p hp, _, _, rfl⟩
  · exact origin_oracle.mpr (hlive k hfound)
  · exact origin_snapshot.mpr ⟨_, hops p hp, _, _, rfl⟩
  · rcases Option.ne_none_iff_exists'.mp hfound with ⟨found, hstored⟩
    rcases (happlied.coherent.memberships k found).mp hstored with ⟨id, oracle, horacle, hlast⟩
    rcases happlied.coherent.key_of_oracle horacle hlast with ⟨_, _, pair, _, rfl⟩
    exact origin_membership.mpr ⟨id, hlive id (by simp [horacle]), pair, rfl⟩

/-- The keys that a block has written come from the chain with that block. -/
theorem origin_snoc (h : Built chain t) (happlied : Applied t block block.ops after) {m k : String}
    (hm : m ≠ ledgerModel) (hfound : after.find m k ≠ none) : Origin (chain ++ [block]) m k := by
  by_cases hbase : t.find m k = none
  · -- Written by the block: under a key of its own or of one of its operations.
    have hkey : BlockKeys block m k ∨ ∃ p ∈ block.ops, Touches t block p.1 p.2 m k := by
      by_contra hc
      rw [not_or] at hc
      rw [happlied.between.frame m k hm hc.1 fun p hp htouches => hc.2 ⟨p, hp, htouches⟩] at hfound
      exact hfound hbase
    rcases hkey with hblock | ⟨p, hp, htouches⟩
    · exact origin_of_blockKeys hblock
    · exact h.origin_of_touches happlied hp htouches hbase hfound
  · exact (h.origin m k hm hbase).snoc

/-- One more block has been indexed. -/
theorem snoc (h : Built chain t) (hclean : Clean (chain ++ [block]))
    (happlied : Applied t block block.ops after)
    (hrecord : after.find (model BlockRecord) block.hash
      = some (stored (BlockRecord.ofBlock block))) : Built (chain ++ [block]) after where
  coherent := happlied.coherent
  nodes k found hfound := by
    rcases happlied.between.admitted h.nodes hfound with ⟨node, hnode, hk, _⟩
    exact ⟨node, hnode, hk.symm⟩
  origin m k hm hfound := h.origin_snoc happlied hm hfound
  snapshots k s hs := by
    have hheight := hclean.numbered.height_last
    refine ⟨?_, ?_⟩
    · rw [List.length_append, List.length_singleton, ← hheight]
      rcases happlied.ordered k s hs with hlt | ⟨heq, _⟩
      · rw [UInt32.lt_iff_toNat_lt] at hlt
        omega
      · rw [heq]
        omega
    · rcases happlied.between.fits _ k _ (by decide) hs with hkept | ⟨hleaves, _, _⟩
      · exact mem_txids_snoc (h.snapshots k s hkept).2
      · rcases hleaves rfl with ⟨s', heq, _, tx, op, oracle, order, hmem, hwritten, _, rfl⟩
        rw [stored_injective heq]
        change oracle.id ∈ _
        have hnamed := (named_of_written hwritten).1
        by_cases htag : op.tag = .appointOracle
        · rw [DecodedOp.named, if_pos htag, Option.some.injEq] at hnamed
          rw [← hnamed]
          exact mem_txids List.mem_concat_self (Block.mem_transactions_of_mem_ops hmem)
        · rw [DecodedOp.named, if_neg htag] at hnamed
          exact h.oracle_mem ((happlied.grounded _ hmem).oracle _ hnamed)
  resigned k node hnode hne := by
    rcases happlied.resigned k node hnode hne with hbase | ⟨q, hq, hresigned⟩
    · rcases h.resigned k node hbase hne with ⟨other, hmem, hrest⟩
      exact ⟨other, List.mem_append_left _ hmem, hrest⟩
    · exact ⟨block, List.mem_concat_self, q, hq, hresigned⟩
  blocks k found := by
    by_cases hk : k = block.hash
    · rw [hk, hrecord, Option.some.injEq]
      constructor
      · exact fun heq => ⟨block, by simp, rfl, heq.symm⟩
      · rintro ⟨other, hmem, hhash, hfound⟩
        rcases List.mem_append.mp hmem with hbefore | hlast
        · exact absurd hhash.symm (hclean.hash_ne hbefore)
        · rw [List.mem_singleton.mp hlast] at hfound
          exact hfound.symm
    · rw [happlied.between.frame _ k (by decide) (by simpa [BlockKeys, Entity.model] using hk)
        (by simp [Touches, Entity.model]), h.blocks k found]
      constructor
      · rintro ⟨other, hmem, hrest⟩
        exact ⟨other, List.mem_append_left _ hmem, hrest⟩
      · rintro ⟨other, hmem, hhash, hfound⟩
        rcases List.mem_append.mp hmem with hbefore | hlast
        · exact ⟨other, hbefore, hhash, hfound⟩
        · rw [List.mem_singleton.mp hlast] at hhash
          exact absurd hhash hk

/-- Indexing the next block, from any store that is built from the chain. -/
theorem runs_applyBlock (symbol : String) (h : Built chain t) (hclean : Clean (chain ++ [block])) :
    Runs (Between t block (BlockKeys block) block.ops) True
      (fun _ behind => Applied t block block.ops behind ∧ Built (chain ++ [block]) behind)
      ((Registry.full symbol).applyBlock block) t :=
  (ChainIndex.runs_applyBlock symbol h.coherent h.nodes (h.fresh hclean) hclean.regular
    (h.below hclean)).mono fun _ _ _ happlied =>
      ⟨happlied.1, h.snoc hclean happlied.1 happlied.2⟩

end Built

/-- What indexing a chain into an empty store leaves is built from it. -/
theorem built_of_build {symbol : String} {chain : List Block} {t : MemoryStore}
    (hclean : Clean chain) (h : build symbol chain = .ok t) : Built chain t := by
  induction chain using List.reverseRecOn generalizing t with
  | nil =>
      rw [build_nil, Except.ok.injEq] at h
      exact h ▸ built_empty
  | append_singleton chain block ih =>
      rcases (build_snoc symbol chain block t).mp h with ⟨before, hbefore, hrun⟩
      have hbuilt := ih hclean.of_snoc hbefore
      exact ((hbuilt.runs_applyBlock symbol hclean).post_of_run hrun).2.2

end ChainIndex
