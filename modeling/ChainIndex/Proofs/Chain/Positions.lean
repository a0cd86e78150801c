import ChainIndex.Chain.Payload
import Mathlib.Data.List.Nodup

/-!
# Positions of operations

The operations of a block are its transactions, those without an operation left out. Where
ids are not shared the position of a transaction is its index, so the operations stand in
the order of their positions, and what was created earlier in the block was created by an
operation ahead.

A position is kept in 32 bits. In a block of more than `2 ^ 32` transactions it would start
over, and the order of positions would not be that of the block; `Block.Regular` leaves such
blocks out.

## Main definitions

* `Block.Regular`: No two transactions share an id, and every position fits.

## Theorems

* `ops_txids_sublist`: Operations stand in the order of their transactions.
* `mem_of_createsBefore`, `createsBefore_of_mem`: What was created earlier in a block.
* `order_lt`: Operations stand in the order of their positions.
-/

namespace ChainIndex

namespace Block

/-- No two transactions of the block share an id, and every position fits into 32 bits. -/
structure Regular (block : Block) : Prop where
  distinct : (block.transactions.map Transaction.txid).Nodup
  fits : block.transactions.length ≤ UInt32.size

theorem mem_transactions_of_mem_ops {block : Block} {p : Transaction × DecodedOp}
    (h : p ∈ block.ops) : p.1 ∈ block.transactions := by
  rcases List.mem_filterMap.mp h with ⟨tx, htx, hop⟩
  rcases Option.map_eq_some_iff.mp hop with ⟨op, _, rfl⟩
  exact htx

/-- What was created earlier in a block was created by an operation ahead. -/
theorem mem_of_createsBefore {block : Block} {tag : OpTag} {id : String}
    {init rest : List (Transaction × DecodedOp)} {p : Transaction × DecodedOp}
    (hops : block.ops = init ++ p :: rest) (h : block.createsBefore tag id p.1.txid = true) :
    ∃ q ∈ init, q.2.tag = tag ∧ q.1.txid = id := by
  unfold Block.createsBefore at h
  rcases List.any_eq_true.mp h with ⟨q, hq, hcreates⟩
  refine ⟨q, ?_, by simpa using hcreates⟩
  -- The search ends at `p` at the latest.
  rw [hops, List.takeWhile_append] at hq
  split at hq
  · rw [List.takeWhile_cons] at hq
    simpa using hq
  · exact (List.takeWhile_sublist _).subset hq

/-- Operations stand in the order of their transactions. -/
theorem ops_txids_sublist (block : Block) :
    (block.ops.map fun p => p.1.txid).Sublist (block.transactions.map Transaction.txid) := by
  have hmap : block.ops.map (fun p => p.1.txid)
      = (block.transactions.filter fun tx => tx.op.isSome).map Transaction.txid := by
    unfold ops
    induction block.transactions with
    | nil => rfl
    | cons tx others ih =>
        rw [List.filterMap_cons, List.filter_cons]
        cases hop : tx.op with
        | none => simpa using ih
        | some op => simpa using ih
  rw [hmap]
  exact List.filter_sublist.map _

/-- An operation ahead of another one belongs to another transaction. -/
theorem txid_ne_of_mem {block : Block} (h : block.Regular)
    {init rest : List (Transaction × DecodedOp)} {p q : Transaction × DecodedOp}
    (hops : block.ops = init ++ p :: rest) (hq : q ∈ init) : q.1.txid ≠ p.1.txid := by
  have hnodup := block.ops_txids_sublist.nodup h.distinct
  rw [hops, List.map_append, List.map_cons] at hnodup
  rw [List.nodup_append] at hnodup
  exact hnodup.2.2 _ (List.mem_map_of_mem hq) _ List.mem_cons_self

/-- An operation ahead counts as one that was there earlier. -/
theorem createsBefore_of_mem {block : Block} (h : block.Regular) {tag : OpTag} {id : String}
    {init rest : List (Transaction × DecodedOp)} {p q : Transaction × DecodedOp}
    (hops : block.ops = init ++ p :: rest) (hq : q ∈ init) (htag : q.2.tag = tag)
    (hid : q.1.txid = id) : block.createsBefore tag id p.1.txid = true := by
  unfold createsBefore
  refine List.any_eq_true.mpr ⟨q, ?_, by simp [htag, hid]⟩
  have hall : ∀ r ∈ init, (r.1.txid != p.1.txid) = true := fun r hr => by
    simpa using txid_ne_of_mem h hops hr
  have hahead : init <+: block.ops.takeWhile fun r => r.1.txid != p.1.txid := by
    rw [hops, List.takeWhile_append_of_pos hall]
    exact List.prefix_append _ _
  exact hahead.subset hq

/-- The position of a transaction is its index. -/
theorem orderOf?_eq {block : Block} (h : block.Regular) {before behind : List Transaction}
    {tx : Transaction} (htxs : block.transactions = before ++ tx :: behind) :
    block.orderOf? tx.txid = some (UInt32.ofNat before.length) := by
  have hdistinct := h.distinct
  rw [htxs, List.map_append, List.map_cons, List.nodup_append] at hdistinct
  have hnot : ∀ other ∈ before, (other.txid == tx.txid) = false := fun other hother => by
    simpa using hdistinct.2.2 _ (List.mem_map_of_mem hother) _ List.mem_cons_self
  unfold orderOf?
  rw [htxs, List.findIdx?_append, List.findIdx?_eq_none_iff.mpr hnot, List.findIdx?_cons]
  simp

theorem order_lt {block : Block} (h : block.Regular)
    {init rest : List (Transaction × DecodedOp)} {p q : Transaction × DecodedOp} {i j : UInt32}
    (hops : block.ops = init ++ p :: rest) (hq : q ∈ init)
    (hi : orderIn block q.1 = .ok i) (hj : orderIn block p.1 = .ok j) : i < j := by
  rcases List.filterMap_eq_append_iff.mp hops with ⟨ahead, tail, htxs, hahead, htail⟩
  rcases List.filterMap_eq_cons_iff.mp htail with ⟨between, tx, behind, hsplit, _, hp, _⟩
  rcases List.mem_filterMap.mp (hahead ▸ hq) with ⟨tx', htx', hq'⟩
  have hptx : tx = p.1 := by
    rcases Option.map_eq_some_iff.mp hp with ⟨op, _, rfl⟩
    rfl
  have hqtx : tx' = q.1 := by
    rcases Option.map_eq_some_iff.mp hq' with ⟨op, _, rfl⟩
    rfl
  rcases List.append_of_mem htx' with ⟨front, back, hfront⟩
  have hqat : block.transactions = front ++ q.1 :: (back ++ tail) := by
    rw [htxs, hfront, hqtx, List.append_assoc, List.cons_append]
  have hpat : block.transactions = (ahead ++ between) ++ p.1 :: behind := by
    rw [htxs, hsplit, hptx, List.append_assoc]
  have hlt : front.length < (ahead ++ between).length := by
    rw [hfront]
    simp only [List.length_append, List.length_cons]
    omega
  have hfits := h.fits
  rw [hpat, List.length_append, List.length_cons] at hfits
  rw [orderIn, orderOf?_eq h hqat, Except.ok.injEq] at hi
  rw [orderIn, orderOf?_eq h hpat, Except.ok.injEq] at hj
  rw [← hi, ← hj, UInt32.lt_iff_toNat_lt, UInt32.toNat_ofNat_of_lt' (by omega),
    UInt32.toNat_ofNat_of_lt' (by omega)]
  exact hlt

end Block

end ChainIndex
