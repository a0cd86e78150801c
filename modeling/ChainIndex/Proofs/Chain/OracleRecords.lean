import ChainIndex.Proofs.Chain.Refused
import ChainIndex.Proofs.Chain.Rolled
import ChainIndex.Proofs.Indexer.OracleSteps

/-!
# Oracles, memberships and history agree

An oracle is kept three times over: as it is now, as a history of snapshots, and as one
membership for each pair that it may price. Six hooks write these records, each by itself.
However a store was rolled forward and back, the three say the same of every oracle.

What an operation keeps is that the store is coherent, and where the keys come from: an oracle
is under the id of a transaction of the chain, and a snapshot under that of the transaction
that left it, with its height and its position. So the next appointment finds nothing of its
oracle, and the next snapshot is the newest. From there an operation is taken back by what
`reverts_appointOracle` and the like say, and the rest is `Rolled.holds`.

## Main definitions

* `Block.oraclesAfter`, `Chain.oracles`: The oracles that operations and chains leave.
* `OraclesTold`: What holds of oracles in a store of a chain.
* `OraclesMidway`: What holds of them while a block is applied.
* `OracleAgrees`: Oracle, memberships and history say the same.
* `Chain.Placed`: A tidy chain in which every position fits.

## Theorems

* `OraclesMidway.wrote`, `OraclesMidway.erased`: Operations on oracles.
* `runs_oracleStep`: Any operation keeps what holds of oracles and is taken back.
* `Coherent.agrees`: What coherence comes to for one oracle.
* `rolled_oracles_agree`: Oracle, memberships and history agree in every store.
-/

namespace ChainIndex

open Entity Program MemoryStore Chain

/-- The oracles after an operation: the one that it is about goes, and what it writes comes. -/
def Block.oraclesAfter (block : Block) (oracles : List Oracle)
    (p : Transaction × DecodedOp) : List Oracle :=
  (oracles.filter fun oracle => p.2.named p.1 ≠ some oracle.id) ++
    (block.written p.1 p.2).toList

/-- The oracles that a chain leaves. -/
def Chain.oracles (chain : List Block) : List Oracle :=
  chain.foldl (fun oracles block => block.ops.foldl block.oraclesAfter oracles) []

/-- What holds of oracles in a store of a chain: the store is coherent, the oracles are those
    that the chain leaves, and the keys of oracles and snapshots come from the chain. -/
structure OraclesTold (chain : List Block) (t : MemoryStore) : Prop where
  coherent : Coherent t
  live : ∀ oracle : Oracle, Held t oracle ↔ oracle ∈ Chain.oracles chain
  oracles : ∀ id, t.find (model Oracle) id ≠ none → id ∈ txids chain
  snapshots : ∀ k (s : OracleSnapshot), t.find (model OracleSnapshot) k = some (stored s) →
    s.id = OracleSnapshot.idOf s.oracleId s.block.height s.txid ∧ s.txid ∈ txids chain ∧
      s.block.height.toNat < chain.length

/-- What holds of oracles while a block is applied to a store of the chain, when some operations
    are done. -/
structure OraclesMidway (chain : List Block) (block : Block)
    (done : List (Transaction × DecodedOp)) (t : MemoryStore) : Prop where
  coherent : Coherent t
  live : ∀ oracle : Oracle, Held t oracle ↔
    oracle ∈ done.foldl block.oraclesAfter (Chain.oracles chain)
  oracles : ∀ id, t.find (model Oracle) id ≠ none →
    id ∈ txids chain ∨ ∃ q ∈ done, q.1.txid = id
  snapshots : ∀ k (s : OracleSnapshot), t.find (model OracleSnapshot) k = some (stored s) →
    s.id = OracleSnapshot.idOf s.oracleId s.block.height s.txid ∧
      ((s.txid ∈ txids chain ∧ s.block.height < block.height) ∨
        ∃ q ∈ done, q.1.txid = s.txid ∧ s.block.height = block.height ∧
          orderIn block q.1 = .ok s.order)

section

variable {chain : List Block} {block : Block} {t after : MemoryStore}

theorem Coherent.of_agree (h : Coherent t) (hwf : after.WF)
    (hagree : after.Agree oracleModels t) : Coherent after :=
  h.congr hwf (hagree _ (by simp [oracleModels])) (hagree _ (by simp [oracleModels]))
    (hagree _ (by simp [oracleModels]))

theorem oraclesTold_empty : OraclesTold [] .empty where
  coherent := ⟨MemoryStore.wf_empty, by simp [Typed], by simp, by simp⟩
  live := by simp [Held, Chain.oracles]
  oracles := by simp
  snapshots := by simp

theorem OraclesTold.congr (h : OraclesTold chain t) (hwf : after.WF)
    (hagree : after.Agree oracleModels t) : OraclesTold chain after where
  coherent := h.coherent.of_agree hwf hagree
  live oracle := (held_congr (hagree _ (by simp [oracleModels])) oracle).trans (h.live oracle)
  oracles id hid := h.oracles id (hagree (model Oracle) (by simp [oracleModels]) id ▸ hid)
  snapshots k s hs :=
    h.snapshots k s (hagree (model OracleSnapshot) (by simp [oracleModels]) k ▸ hs)

/-- Before any operation is done. -/
theorem OraclesTold.start (h : OraclesTold chain t) (hnumbered : Numbered (chain ++ [block])) :
    OraclesMidway chain block [] t where
  coherent := h.coherent
  live := h.live
  oracles id hid := Or.inl (h.oracles id hid)
  snapshots k s hs := by
    rcases h.snapshots k s hs with ⟨hid, hmem, hlt⟩
    refine ⟨hid, Or.inl ⟨hmem, ?_⟩⟩
    rw [UInt32.lt_iff_toNat_lt, hnumbered.height_last]
    exact hlt

namespace OraclesMidway

variable {done init rest : List (Transaction × DecodedOp)} {tx : Transaction} {op : DecodedOp}

/-- When all operations are done. -/
theorem finish (h : OraclesMidway chain block block.ops t)
    (hnumbered : Numbered (chain ++ [block])) : OraclesTold (chain ++ [block]) t := by
  have hops : ∀ q ∈ block.ops, q.1.txid ∈ txids (chain ++ [block]) := fun q hq =>
    mem_txids List.mem_concat_self (Block.mem_transactions_of_mem_ops hq)
  have hbefore : ∀ {txid}, txid ∈ txids chain → txid ∈ txids (chain ++ [block]) := fun hmem =>
    txids_snoc chain block ▸ List.mem_append_left _ hmem
  have hheight := hnumbered.height_last
  refine ⟨h.coherent, fun oracle => ?_, fun id hid => ?_, fun k s hs => ?_⟩
  · rw [h.live, Chain.oracles, Chain.oracles, List.foldl_append, List.foldl_cons, List.foldl_nil]
  · rcases h.oracles id hid with hmem | ⟨q, hq, rfl⟩
    · exact hbefore hmem
    · exact hops q hq
  · rcases h.snapshots k s hs with ⟨hid, ⟨hmem, hlt⟩ | ⟨q, hq, htxid, heq, _⟩⟩
    · refine ⟨hid, hbefore hmem, ?_⟩
      rw [UInt32.lt_iff_toNat_lt] at hlt
      rw [List.length_append, List.length_singleton]
      omega
    · refine ⟨hid, htxid ▸ hops q hq, ?_⟩
      rw [heq, List.length_append, List.length_singleton]
      omega

/-- What is written elsewhere does not matter. -/
theorem congr (h : OraclesMidway chain block done t) (hwf : after.WF)
    (hagree : after.Agree oracleModels t) : OraclesMidway chain block done after where
  coherent := h.coherent.of_agree hwf hagree
  live oracle := (held_congr (hagree _ (by simp [oracleModels])) oracle).trans (h.live oracle)
  oracles id hid := h.oracles id (hagree (model Oracle) (by simp [oracleModels]) id ▸ hid)
  snapshots k s hs :=
    h.snapshots k s (hagree (model OracleSnapshot) (by simp [oracleModels]) k ▸ hs)

/-- The oracles when one more operation is done. -/
theorem mem_oracles_snoc {oracles : List Oracle} {oracle : Oracle} :
    oracle ∈ (init ++ [(tx, op)]).foldl block.oraclesAfter oracles ↔
      oracle ∈ init.foldl block.oraclesAfter oracles ∧ op.named tx ≠ some oracle.id ∨
        block.written tx op = some oracle := by
  rw [List.foldl_append, List.foldl_cons, List.foldl_nil, Block.oraclesAfter, List.mem_append,
    List.mem_filter, Option.mem_toList, decide_eq_true_iff]

/-- When an operation that is not about oracles is done. -/
theorem pass (h : OraclesMidway chain block init t) (hnamed : op.named tx = none) :
    OraclesMidway chain block (init ++ [(tx, op)]) t where
  coherent := h.coherent
  live oracle := by
    have hwritten : block.written tx op ≠ some oracle := fun hc =>
      absurd (named_of_written hc).1 (by simp [hnamed])
    rw [h.live, mem_oracles_snoc]
    simp [hnamed, hwritten]
  oracles id hid := (h.oracles id hid).imp_right (exists_done mem_snoc)
  snapshots k s hs :=
    (h.snapshots k s hs).imp_right (Or.imp_right (exists_done mem_snoc))

variable (h : OraclesMidway chain block init t) (htidy : Tidy (chain ++ [block]))
variable (hregular : block.Regular) (hops : block.ops = init ++ (tx, op) :: rest)

include h htidy hregular hops

/-- Nothing is under the id of the next transaction yet. -/
theorem oracle_free : t.find (model Oracle) tx.txid = none := by
  have htx := Block.mem_transactions_of_mem_ops (mem_ops_of_eq hops)
  by_contra hc
  rcases h.oracles tx.txid hc with hmem | ⟨q, hq, hid⟩
  · exact htidy.txid_not_mem htx hmem
  · exact Block.txid_ne_of_mem hregular hops hq hid

theorem membership_free (pair : PricePair) :
    t.find (model Membership) (Membership.idOf pair tx.txid) = none := by
  have htx := Block.mem_transactions_of_mem_ops (mem_ops_of_eq hops)
  rcases hfound : t.find (model Membership) (Membership.idOf pair tx.txid) with _ | found
  · rfl
  · rcases h.coherent.membership_of_key (htidy.dashFree_last htx) rfl hfound with
      ⟨oracle, horacle, _⟩
    rw [h.oracle_free htidy hregular hops] at horacle
    exact absurd horacle (by simp)

/-- The snapshot that the next operation leaves is under a key of its own. -/
theorem snapshot_free (id : String) :
    t.find (model OracleSnapshot) (OracleSnapshot.idOf id block.height tx.txid) = none := by
  have htx := Block.mem_transactions_of_mem_ops (mem_ops_of_eq hops)
  rcases hfound : t.find (model OracleSnapshot)
    (OracleSnapshot.idOf id block.height tx.txid) with _ | found
  · rfl
  rcases h.coherent.snapshots _ _ hfound with ⟨s, rfl, hk⟩
  rcases h.snapshots _ s hfound with ⟨hid, hfrom⟩
  have hkey : OracleSnapshot.idOf id block.height tx.txid
      = OracleSnapshot.idOf s.oracleId s.block.height s.txid := hk.trans hid
  -- The transaction that has left it is not the next one.
  rcases hfrom with ⟨hmem, _⟩ | ⟨q, hq, htxid, _⟩
  · have hsame := (Text.append_dash_injective (htidy.dashFree_last htx)
      (htidy.of_snoc.dashFree _ hmem) hkey).2
    exact absurd (hsame ▸ hmem) (htidy.txid_not_mem htx)
  · have hqtx := Block.mem_transactions_of_mem_ops
      (show q ∈ block.ops from hops ▸ List.mem_append_left _ hq)
    have hsame := (Text.append_dash_injective (htidy.dashFree_last htx)
      (htxid ▸ htidy.dashFree_last hqtx) hkey).2
    exact absurd (htxid.trans hsame.symm) (Block.txid_ne_of_mem hregular hops hq)

omit htidy in
/-- And it is newer than every other one. -/
theorem snapshot_newest {order : UInt32} (horder : orderIn block tx = .ok order) {oracle : Oracle}
    (hblock : oracle.block = block.ref) {k : String} {s : OracleSnapshot}
    (hs : t.find (model OracleSnapshot) k = some (stored s)) :
    s.Earlier (OracleSnapshot.ofOracle oracle tx.txid order) := by
  have hheight : (OracleSnapshot.ofOracle oracle tx.txid order).block.height = block.height := by
    rw [OracleSnapshot.ofOracle, hblock]
    rfl
  -- A snapshot is of a lower block, or of an operation ahead of this one.
  rcases (h.snapshots k s hs).2 with ⟨_, hlt⟩ | ⟨q, hq, _, heq, hqorder⟩
  · exact Or.inl (hheight ▸ hlt)
  · exact Or.inr ⟨heq.trans hheight.symm, Block.order_lt hregular hops hq hqorder horder⟩

/-- An operation that has written an oracle, after the memberships that the oracle had. -/
theorem wrote {oracle : Oracle} {order : UInt32} {former : List String}
    (hwritten : block.written tx op = some oracle) (horder : orderIn block tx = .ok order)
    (hdash : Text.DashFree oracle.id)
    (hroot : oracle.id ∈ txids chain ∨ ∃ q ∈ init ++ [(tx, op)], q.1.txid = oracle.id)
    (hown : ∀ k ∈ former, ∃ pair, k = Membership.idOf pair oracle.id)
    (hformer : ∀ previous : Oracle, t.find (model Oracle) oracle.id = some (stored previous) →
      ∀ pair ∈ previous.priceFeeds, Membership.idOf pair oracle.id ∈ former)
    (hwf : (writtenStore (removedAll Membership t former) oracle tx.txid order).WF) :
    OraclesMidway chain block (init ++ [(tx, op)])
      (writtenStore (removedAll Membership t former) oracle tx.txid order) := by
  rcases named_of_written hwritten with ⟨hnamed, hblock⟩
  refine ⟨?_, fun other => ?_, fun id hid => ?_, fun k s hs => ?_⟩
  · refine h.coherent.write oracle _ former hwf hdash rfl ?_ ?_ hown hformer
      (find_written_snapshot oracle tx.txid order former)
      (find_written_oracle oracle tx.txid order former)
      (find_written_membership oracle tx.txid order former)
    · rw [written_id hwritten]
      exact h.snapshot_free htidy hregular hops oracle.id
    · exact fun s hs _ => h.snapshot_newest hregular hops horder hblock hs
  · rw [mem_oracles_snoc, hnamed, hwritten, ← h.live, Held, find_written_oracle]
    by_cases hk : key other = oracle.id
    · rw [if_pos hk, Option.some.injEq, Option.some.injEq]
      simp only [show other.id = oracle.id from hk, ne_eq, not_true_eq_false, and_false, false_or]
      exact ⟨stored_injective, fun heq => congrArg stored heq⟩
    · rw [if_neg hk]
      have hne : oracle ≠ other := fun heq => hk (congrArg Oracle.id heq.symm)
      have hid : oracle.id ≠ other.id := fun heq => hk heq.symm
      simp [hne, hid, Held]
  · rw [find_written_oracle] at hid
    by_cases hk : id = oracle.id
    · exact hk ▸ hroot
    · rw [if_neg hk] at hid
      exact (h.oracles id hid).imp_right (exists_done mem_snoc)
  · rw [find_written_snapshot] at hs
    by_cases hk : k = (OracleSnapshot.ofOracle oracle tx.txid order).id
    · rw [if_pos hk, Option.some.injEq] at hs
      rw [← stored_injective hs]
      refine ⟨rfl, Or.inr ⟨_, List.mem_concat_self, rfl, ?_, horder⟩⟩
      rw [OracleSnapshot.ofOracle, hblock]
      rfl
    · rw [if_neg hk] at hs
      rcases h.snapshots k s hs with ⟨hid, hfrom⟩
      exact ⟨hid, hfrom.imp_right (exists_done mem_snoc)⟩

omit htidy hregular hops in
/-- An operation that has taken an oracle away, and its memberships. -/
theorem erased {oracle : Oracle} {former : List String}
    (hnamed : op.named tx = some oracle.id) (hwritten : block.written tx op = none)
    (hdash : Text.DashFree oracle.id)
    (hown : ∀ k ∈ former, ∃ pair, k = Membership.idOf pair oracle.id)
    (hformer : ∀ previous : Oracle, t.find (model Oracle) oracle.id = some (stored previous) →
      ∀ pair ∈ previous.priceFeeds, Membership.idOf pair oracle.id ∈ former)
    (hwf : (removed Oracle (removedAll Membership t former) oracle.id).WF) :
    OraclesMidway chain block (init ++ [(tx, op)])
      (removed Oracle (removedAll Membership t former) oracle.id) := by
  refine ⟨?_, fun other => ?_, fun id hid => ?_, fun k s hs => ?_⟩
  · exact h.coherent.erase oracle former hwf hdash hown hformer
      (fun k => find_erased_snapshot former k oracle.id)
      (fun k => find_erased_oracle former k oracle.id)
      fun k => find_erased_membership former k oracle.id
  · rw [mem_oracles_snoc, hnamed, hwritten, ← h.live, Held, find_erased_oracle]
    by_cases hk : key other = oracle.id
    · rw [if_pos hk]
      simp [show other.id = oracle.id from hk]
    · rw [if_neg hk]
      have hid : oracle.id ≠ other.id := fun heq => hk heq.symm
      simp [hid, Held]
  · rw [find_erased_oracle] at hid
    by_cases hk : id = oracle.id
    · exact absurd (if_pos hk) hid
    · rw [if_neg hk] at hid
      exact (h.oracles id hid).imp_right (exists_done mem_snoc)
  · rw [find_erased_snapshot] at hs
    rcases h.snapshots k s hs with ⟨hid, hfrom⟩
    exact ⟨hid, hfrom.imp_right (exists_done mem_snoc)⟩

end OraclesMidway

/-! ## Operations and blocks -/

variable {init rest : List (Transaction × DecodedOp)} {tx : Transaction} {op : DecodedOp}

/-- An operation that is not about oracles. -/
theorem runs_otherStep (symbol : String) (h : OraclesMidway chain block init t) (hwf : t.WF)
    (hnamed : op.named tx = none) (hother : ∀ m ∈ oracleModels, m ∉ op.tag.models) :
    Runs MemoryStore.WF True
      (fun _ behind => OraclesMidway chain block (init ++ [(tx, op)]) behind ∧
        Reverts oracleModels
          ((Indexer.ofTag symbol op.tag).hook .undo (.transaction tx op) block) behind t)
      ((Indexer.ofTag symbol op.tag).hook .apply (.transaction tx op) block) t :=
  ((makes_operation_of_tag symbol block tx op .apply).agrees hother hwf).mono
    fun _ _ hbehind hagree => ⟨(h.congr hbehind hagree).pass hnamed,
      .of_agree (makes_operation_of_tag symbol block tx op .undo) hother hagree⟩

/-- The oracle that an update or a removal names is there. -/
theorem runs_requireOracle (h : Coherent t) (id : String) :
    Runs MemoryStore.WF True
      (fun oracle behind => behind = t ∧ oracle.id = id ∧ Text.DashFree id ∧
        t.find (model Oracle) id = some (stored oracle))
      (Entity.require Oracle id) t := by
  refine runs_require h.wf (fun _ => trivial) fun found hfound => ?_
  rcases h.oracle_typed hfound with ⟨oracle, rfl, hid, hdash⟩
  exact ⟨oracle, rfl, rfl, hid, hdash, hfound⟩

section

variable (h : OraclesMidway chain block init t) (hwf : t.WF) (htidy : Tidy (chain ++ [block]))
variable (hregular : block.Regular) (hops : block.ops = init ++ (tx, op) :: rest)

include h hwf htidy hregular hops

theorem runs_appointStep (htag : op.tag = .appointOracle) :
    Runs MemoryStore.WF True
      (fun _ behind => OraclesMidway chain block (init ++ [(tx, op)]) behind ∧
        Reverts oracleModels (Indexer.appointOracle.hook .undo (.transaction tx op) block)
          behind t)
      (Indexer.appointOracle.hook .apply (.transaction tx op) block) t := by
  have htx := Block.mem_transactions_of_mem_ops (mem_ops_of_eq hops)
  refine runs_bind (runs_ofExcept_ok hwf) ?_
  rintro data behind - ⟨rfl, hdata⟩
  have hnone := h.oracle_free htidy hregular hops
  refine (runs_write_wf hwf (data.toOracle tx.txid block) block tx).mono ?_
  rintro _ last hlast ⟨order, horder, rfl⟩
  have hwrote : OraclesMidway chain block (init ++ [(tx, op)])
      (writtenStore (removedAll Membership behind []) (data.toOracle tx.txid block) tx.txid
        order) := by
    refine h.wrote htidy hregular hops (Block.written_of_appointOracle htag hdata) horder
      (htidy.dashFree_last htx) (Or.inr ⟨_, List.mem_concat_self, rfl⟩) (by simp)
      (fun previous hprevious => ?_) hlast
    -- Nothing is known of the oracle yet, so there are no memberships to erase first.
    rw [show (data.toOracle tx.txid block).id = tx.txid from rfl, hnone] at hprevious
    exact absurd hprevious (by simp)
  exact ⟨hwrote, reverts_appointOracle htag hdata
    (h.snapshot_free htidy hregular hops tx.txid) hnone (h.membership_free htidy hregular hops)⟩

theorem runs_updateStep (htag : op.tag = .updateOracle) :
    Runs MemoryStore.WF True
      (fun _ behind => OraclesMidway chain block (init ++ [(tx, op)]) behind ∧
        Reverts oracleModels (Indexer.updateOracle.hook .undo (.transaction tx op) block)
          behind t)
      (Indexer.updateOracle.hook .apply (.transaction tx op) block) t := by
  refine runs_bind (runs_ofExcept_ok hwf) ?_
  rintro data behind - ⟨rfl, hdata⟩
  refine runs_bind (runs_requireOracle h.coherent data.oracleId) ?_
  rintro previous after - ⟨rfl, hid, hdash, hfound⟩
  refine runs_bind (runs_eraseMemberships_wf hwf previous.id previous.priceFeeds) ?_
  rintro _ cleared hcleared rfl
  refine (runs_write_wf hcleared (data.toOracle block) block tx).mono ?_
  rintro _ last hlast ⟨order, horder, rfl⟩
  have hown : ∀ k ∈ previous.priceFeeds.map (fun pair => Membership.idOf pair previous.id),
      ∃ pair, k = Membership.idOf pair data.oracleId := by
    intro k hk
    rcases List.mem_map.mp hk with ⟨pair, _, rfl⟩
    exact ⟨pair, by rw [hid]⟩
  refine ⟨h.wrote htidy hregular hops (Block.written_of_updateOracle htag hdata) horder hdash
    ((h.oracles data.oracleId (by simp [hfound])).imp_right (exists_done mem_snoc)) hown
    (fun former hformer pair hpair => ?_) hlast,
    reverts_updateOracle htag hdata h.coherent hfound
      (h.snapshot_free htidy hregular hops data.oracleId) hown⟩
  rw [show (data.toOracle block).id = data.oracleId from rfl, hfound, Option.some.injEq]
    at hformer
  rw [← stored_injective hformer] at hpair
  rw [show (data.toOracle block).id = previous.id from hid.symm]
  exact List.mem_map_of_mem hpair

omit htidy hregular hops in
theorem runs_removeStep (htag : op.tag = .removeOracle) :
    Runs MemoryStore.WF True
      (fun _ behind => OraclesMidway chain block (init ++ [(tx, op)]) behind ∧
        Reverts oracleModels (Indexer.removeOracle.hook .undo (.transaction tx op) block)
          behind t)
      (Indexer.removeOracle.hook .apply (.transaction tx op) block) t := by
  refine runs_bind (runs_ofExcept_ok hwf) ?_
  rintro data behind - ⟨rfl, hdata⟩
  refine runs_bind (runs_requireOracle h.coherent data.oracleId) ?_
  rintro oracle after - ⟨rfl, hid, hdash, hfound⟩
  refine runs_bind (runs_eraseMemberships_wf hwf oracle.id oracle.priceFeeds) ?_
  rintro _ cleared hcleared rfl
  refine (runs_remove_wf hcleared oracle.id).mono ?_
  rintro _ last hlast rfl
  have hown : ∀ k ∈ oracle.priceFeeds.map (fun pair => Membership.idOf pair oracle.id),
      ∃ pair, k = Membership.idOf pair oracle.id := by
    intro k hk
    rcases List.mem_map.mp hk with ⟨pair, _, rfl⟩
    exact ⟨pair, rfl⟩
  have hnamed : op.named tx = some oracle.id :=
    named_of_restored (hid.symm ▸ DecodedOp.restored_of_removeOracle htag hdata)
  have hwritten : block.written tx op = none :=
    Block.written_of_ne (by rw [htag]; decide) (by rw [htag]; decide)
  refine ⟨h.erased hnamed hwritten (hid ▸ hdash) hown
    (fun former hformer pair hpair => ?_) hlast, ?_⟩
  · rw [hid, hfound, Option.some.injEq] at hformer
    rw [← stored_injective hformer] at hpair
    exact List.mem_map_of_mem hpair
  · rw [hid]
    exact reverts_removeOracle hdata h.coherent hfound (hid ▸ hown)

/-- Any operation keeps what holds of oracles and is taken back. -/
theorem runs_oracleStep (symbol : String) :
    Runs MemoryStore.WF True
      (fun _ behind => OraclesMidway chain block (init ++ [(tx, op)]) behind ∧
        Reverts oracleModels
          ((Indexer.ofTag symbol op.tag).hook .undo (.transaction tx op) block) behind t)
      ((Indexer.ofTag symbol op.tag).hook .apply (.transaction tx op) block) t := by
  cases htag : op.tag with
  | appointOracle => exact runs_appointStep h hwf htidy hregular hops htag
  | updateOracle => exact runs_updateStep h hwf htidy hregular hops htag
  | removeOracle => exact runs_removeStep h hwf htag
  | createToken | setOracleData | createMasternode | resignMasternode =>
      have hnamed : op.named tx = none := by
        simp [DecodedOp.named, DecodedOp.restored, DecodedOp.data?, htag]
      exact htag ▸ runs_otherStep symbol h hwf hnamed (by rw [htag]; decide)

end

/-- The next block keeps what holds of oracles, and is taken back. -/
theorem runs_applyBlock_oracles (symbol : String) (h : OraclesTold chain t) (hwf : t.WF)
    (htidy : Tidy (chain ++ [block])) (hregular : block.Regular) :
    Runs MemoryStore.WF True
      (fun _ behind => OraclesTold (chain ++ [block]) behind ∧
        Reverts oracleModels ((Registry.standard symbol).undoBlock block) behind t)
      ((Registry.standard symbol).applyBlock block) t := by
  have hstats : ∀ m ∈ oracleModels, m ∉ [model MasternodeStats] := by decide
  have hstep : ∀ init tx op rest before, block.ops = init ++ (tx, op) :: rest → before.WF →
      OraclesMidway chain block init before →
      Runs MemoryStore.WF True
        (fun _ behind => OraclesMidway chain block (init ++ [(tx, op)]) behind ∧
          Reverts oracleModels
            ((Indexer.ofTag symbol op.tag).hook .undo (.transaction tx op) block) behind before)
        ((Indexer.ofTag symbol op.tag).hook .apply (.transaction tx op) block) before :=
    fun _ _ _ _ _ hops hbefore hinv => runs_oracleStep hinv hbefore htidy hregular hops symbol
  have hend : ∀ before, before.WF → OraclesMidway chain block block.ops before →
      Runs MemoryStore.WF True
        (fun _ behind => OraclesTold (chain ++ [block]) behind ∧
          Reverts oracleModels (Indexer.masternodeStats.hook .undo .blockEnd block) behind before)
        (Indexer.masternodeStats.hook .apply .blockEnd block) before := fun before hbefore hinv =>
    ((makes_statistics block .apply).agrees hstats hbefore).mono fun _ _ hafter hagree =>
      ⟨(hinv.congr hafter hagree).finish htidy.numbered,
        .of_agree (makes_statistics block .undo) hstats hagree⟩
  exact runs_applyBlock_reverts symbol (by decide)
    (fun _ _ _ hbefore hafter hagree => hbefore.congr hafter hagree)
    hstep hend hwf (h.start htidy.numbered)

end

/-! ## Agreement -/

/-- Oracle, memberships and history say the same of an oracle. If there is one under the id,
    its newest snapshot, by height and then by position, shows it as it is, and its memberships
    are one for each key among those of its pairs, as the oracle would write them. If there is
    none, neither is there a membership. -/
structure OracleAgrees (t : MemoryStore) (id : String) : Prop where
  live : ∀ found, t.find (model Oracle) id = some found →
    ∃ (oracle : Oracle) (s : OracleSnapshot), found = stored oracle ∧ oracle.id = id ∧
      OracleSnapshot.Latest t s ∧ s.oracleId = id ∧ s.toOracle = oracle ∧
      (∀ member : Membership, Held t member → member.oracleId = id →
        ∃ pair ∈ oracle.priceFeeds, member = Membership.ofOracle oracle pair) ∧
      ∀ pair ∈ oracle.priceFeeds,
        ∃! member : Membership, Held t member ∧ member.oracleId = id ∧ member.key = pair.key
  gone : t.find (model Oracle) id = none →
    ∀ member : Membership, Held t member → member.oracleId ≠ id

namespace Coherent

variable {t : MemoryStore} {id : String} {oracle : Oracle} {member : Membership}

/-- A membership that is held is one that its oracle would write. -/
theorem oracle_of_held (h : Coherent t) (hheld : Held t member) :
    ∃ oracle : Oracle, t.find (model Oracle) member.oracleId = some (stored oracle) ∧
      ∃ pair ∈ oracle.priceFeeds, member = Membership.ofOracle oracle pair := by
  rcases (h.memberships _ _).mp hheld with ⟨id, oracle, horacle, hlast⟩
  rcases lastStored_mem hlast with ⟨written, hmem, _, hstored⟩
  rcases List.mem_map.mp hmem with ⟨pair, hpair, rfl⟩
  have hmember := stored_injective hstored
  have hid : member.oracleId = id := by
    rw [hmember]
    exact (h.key_of_oracle horacle hlast).1
  exact ⟨oracle, hid ▸ horacle, pair, hpair, hmember⟩

/-- For each pair of an oracle a membership is held under its key. -/
theorem held_of_pair (h : Coherent t) (horacle : t.find (model Oracle) id = some (stored oracle))
    (hid : oracle.id = id) (hdash : Text.DashFree id) {pair : PricePair}
    (hpair : pair ∈ oracle.priceFeeds) :
    ∃ member : Membership, Held t member ∧ member.oracleId = id ∧ member.key = pair.key := by
  rcases Option.ne_none_iff_exists'.mp (lastStored_ne_none hpair rfl) with ⟨found, hlast⟩
  rcases lastStored_mem hlast with ⟨member, hmem, hk, rfl⟩
  rcases List.mem_map.mp hmem with ⟨other, _, rfl⟩
  refine ⟨Membership.ofOracle oracle other, ?_, hid, ?_⟩
  · exact (h.memberships _ _).mpr ⟨id, oracle, horacle, hk ▸ hlast⟩
  · have hkeys : Membership.idOf pair id = Membership.idOf other id := by
      rw [hid] at hk
      exact hk.trans (congrArg (Membership.idOf other) hid)
    exact (Text.append_dash_injective hdash hdash hkeys).1.symm

/-- Where a store is coherent, oracle, memberships and history agree. -/
theorem agrees (h : Coherent t) (id : String) : OracleAgrees t id where
  live found hfound := by
    rcases h.oracles id found hfound with ⟨s, rfl, hid, hdash, hlatest⟩
    have hown : ∀ member : Membership, Held t member → member.oracleId = id →
        ∃ pair ∈ s.toOracle.priceFeeds, member = Membership.ofOracle s.toOracle pair := by
      intro member hheld hmember
      rcases h.oracle_of_held hheld with ⟨oracle, horacle, hpair⟩
      rw [hmember, hfound, Option.some.injEq] at horacle
      rw [stored_injective horacle]
      exact hpair
    refine ⟨s.toOracle, s, rfl, hid, hlatest, hid, rfl, hown, fun pair hpair => ?_⟩
    rcases h.held_of_pair hfound hid hdash hpair with ⟨member, hheld, hmember, hkey⟩
    refine ⟨member, ⟨hheld, hmember, hkey⟩, ?_⟩
    rintro other ⟨hother, hsame, hotherKey⟩
    -- Both are held under the key that is composed of their pair's key and the oracle.
    rcases hown member hheld hmember with ⟨first, _, hfirst⟩
    rcases hown other hother hsame with ⟨second, _, hsecond⟩
    have hkeys : first.key = second.key := by
      rw [hfirst] at hkey
      rw [hsecond] at hotherKey
      exact hkey.trans hotherKey.symm
    have hk : key other = key member := by
      rw [hfirst, hsecond]
      exact congrArg (fun k => k ++ "-" ++ s.toOracle.id) hkeys.symm
    rw [Held, hk] at hother
    rw [Held, hother, Option.some.injEq] at hheld
    exact stored_injective hheld
  gone hnone member hheld hmember := by
    rcases h.oracle_of_held hheld with ⟨oracle, horacle, _⟩
    rw [hmember, hnone] at horacle
    exact absurd horacle (by simp)

/-- Every membership is under its own key. -/
theorem memberships_typed (h : Coherent t) : Typed Membership t := by
  intro k found hfound
  rcases (h.memberships k found).mp hfound with ⟨_, _, _, hlast⟩
  rcases lastStored_mem hlast with ⟨member, _, hk, hstored⟩
  exact ⟨member, hstored, hk⟩

end Coherent

/-- A tidy chain in which the position of every transaction fits into 32 bits. -/
structure Chain.Placed (chain : List Block) : Prop extends Tidy chain where
  fits : ∀ block ∈ chain, block.transactions.length ≤ UInt32.size

/-- However a store was rolled forward and back, oracle, memberships and history say the same
    of every oracle, and no snapshot or membership is under any key but its own. -/
theorem rolled_oracles_agree (symbol : String) {chain : List Block} {t : MemoryStore}
    (h : Rolled symbol Placed chain t) :
    Typed OracleSnapshot t ∧ Typed Membership t ∧ ∀ id, OracleAgrees t id := by
  have htold : t.WF ∧ OraclesTold chain t := by
    refine h.holds oraclesTold_empty (fun hbefore hwf hagree => hbefore.congr hwf hagree) ?_
    intro chain block before hplaced hwf hbefore
    exact runs_applyBlock_oracles symbol hbefore hwf hplaced.toTidy
      ⟨hplaced.distinct_last, hplaced.fits block List.mem_concat_self⟩
  have hcoherent := htold.2.coherent
  exact ⟨hcoherent.snapshots, hcoherent.memberships_typed, hcoherent.agrees⟩

/-- A block that appoints an oracle and gives it other pairs twice. -/
def Block.reappointing : Block :=
  .holding "a" "" 0 [
    .carrying "o" .appointOracle [("ownerAddress", .string "x"), ("weightage", .int 1),
      ("priceFeeds", .array [PricePair.toJson ⟨"T", "C"⟩])],
    .carrying "p" .updateOracle [("oracleId", .string "o"), ("ownerAddress", .string "y"),
      ("weightage", .int 2),
      ("priceFeeds", .array [PricePair.toJson ⟨"T", "C"⟩, PricePair.toJson ⟨"U", "C"⟩])],
    .carrying "q" .updateOracle [("oracleId", .string "o"), ("ownerAddress", .string "z"),
      ("weightage", .int 3),
      ("priceFeeds", .array [PricePair.toJson ⟨"U", "C"⟩, PricePair.toJson ⟨"U", "C"⟩])]]

namespace Block.reappointing

/-- The store with the block. -/
def appointed : MemoryStore :=
  ((Registry.standard "DFI").applyBlock reappointing).leaves .empty

/-- The store in which a second block has removed the oracle. -/
def without : MemoryStore :=
  ((Registry.standard "DFI").applyBlock removing).leaves appointed

/-- The store in which that block has been undone. -/
def behind : MemoryStore :=
  ((Registry.standard "DFI").undoBlock removing).leaves without

theorem rolled : Rolled "DFI" Placed [reappointing] behind := by
  have hone : Placed [reappointing] := ⟨⟨numbered_of_map (by decide), by decide, by decide⟩,
    by decide⟩
  have htwo : Placed [reappointing, removing] :=
    ⟨⟨numbered_of_map (by decide), by decide, by decide⟩, by decide⟩
  have hfirst : Rolled "DFI" Placed [reappointing] appointed :=
    .forward .start hone (Program.run_of_ok (by decide +kernel))
  have hsecond : Rolled "DFI" Placed [reappointing, removing] without :=
    .forward hfirst htwo (Program.run_of_ok (by decide +kernel))
  exact .back hsecond (Program.run_of_ok (by decide +kernel))

end Block.reappointing

/-- The oracle is there again, with the pair of the last update and without those before. -/
theorem rolled_oracles_agree_reappointed :
    ((Block.reappointing.behind.find (model Oracle) "o").isSome = true ∧
      (Block.reappointing.behind.find (model Membership) "U-C-o").isSome = true ∧
      (Block.reappointing.behind.find (model Membership) "T-C-o").isSome = false) ∧
    Typed OracleSnapshot Block.reappointing.behind ∧ Typed Membership Block.reappointing.behind ∧
      ∀ id, OracleAgrees Block.reappointing.behind id :=
  ⟨by decide +kernel, rolled_oracles_agree "DFI" Block.reappointing.rolled⟩

end ChainIndex
