import ChainIndex.Proofs.Chain.Built

/-!
# Blocks that are interrupted

A block may be cut off anywhere while it is applied, and again anywhere while it is undone.
Undoing it once in full then brings back the store as it was before the block, whatever has
been cut off in between. This is what the follower relies on when it finds in its ledger
that an attempt has not ended.

It holds of every block that would be applied without error. The cuts do not matter because
a store that is between stays so: at every point of applying or undoing the store is between
the same two stores, and undoing starts from any of them.

## Main definitions

* `ResignsUnresigned`: The block resigns no masternode that is resigned already.

## Theorems

* `undoable_of_applied`, `harmless_of_applied`: What applying a block has shown of it.
* `runs_undo_built`: Undoing a block that would be applied.
* `undo_restores_interrupted`: Undoing a block that was cut off any number of times.
-/

namespace ChainIndex

open Entity Program Chain

/-- No masternode that the block resigns is resigned in the store already. -/
def ResignsUnresigned (store : MemoryStore) (block : Block) : Prop :=
  ∀ p ∈ block.ops, ∀ id, p.2.resigned = some id → ∀ node : Masternode,
    store.find (model Masternode) id = some (stored node) →
      node.resignHeight = none ∧ node.resignTx = none

theorem Masternode.unresigned_eq_iff (node : Masternode) :
    node.unresigned = node ↔ node.resignHeight = none ∧ node.resignTx = none := by
  rcases node with ⟨id, ownerScript, operatorAddress, creation, height, tx, collateral, block⟩
  simp [Masternode.unresigned, eq_comm]

variable {base t : MemoryStore} {block : Block}

theorem undoable_of_applied (h : Applied base block block.ops t) : Undoable base block where
  readable p hp := (h.grounded p hp).readable
  nodes p hp id hid := (h.grounded p hp).node id hid

theorem harmless_of_applied (h : Applied base block block.ops t)
    (hresigns : ResignsUnresigned base block) : Harmless base block where
  oracles p hp id hid := (h.grounded p hp).oracle id hid
  nodes p hp id hid node hnode :=
    (Masternode.unresigned_eq_iff node).mpr (hresigns p hp id hid node hnode)

/-- A block that would be applied to a store is undone from every store between. -/
theorem runs_undo_built (symbol : String) {chain : List Block} (hbase : Built chain base)
    (hclean : Clean (chain ++ [block])) (happlies : ∃ t, Applied base block block.ops t)
    (hresigns : ResignsUnresigned base block)
    (h : Between base block (BlockKeys block) block.ops t) :
    Runs (Between base block (BlockKeys block) block.ops) False
      (fun _ behind => behind.Alike base) ((Registry.full symbol).undoBlock block) t := by
  rcases happlies with ⟨applied, happlied⟩
  have hundo := runs_undoBlock symbol hbase.coherent hbase.nodes (hbase.fresh hclean)
    (harmless_of_applied happlied hresigns) h
  refine (hundo.mono fun _ behind _ hclosed => hclosed.alike hbase.coherent.wf).weaken
    (fun _ hbetween => hbetween) fun hnot => hnot (undoable_of_applied happlied)

/-- A block whose application does not fail is applied in full. -/
theorem applied_of_run (symbol : String) {chain : List Block} (hbase : Built chain base)
    (hclean : Clean (chain ++ [block])) {source : MemorySource} {now : Int64}
    (hrun : (((Registry.full symbol).applyBlock block).run World.answer
      ⟨base, source, now⟩).1 = .ok ()) : ∃ t, Applied base block block.ops t := by
  rcases runs_run (hbase.runs_applyBlock symbol hclean) source now with
    ⟨result, behind, heq, _, _, hpost, _⟩
  rw [heq] at hrun
  exact ⟨behind, (hpost () hrun).1⟩

/-- Undoing a block brings back the store that a chain was indexed into, wherever applying
    the block was cut off and however often and wherever undoing it was. -/
theorem undo_restores_interrupted (symbol : String) (chain : List Block) (block : Block)
    (store : MemoryStore) (hclean : Clean (chain ++ [block]))
    (hstore : build symbol chain = .ok store) (source : MemorySource) (now : Int64)
    (happlies : (((Registry.full symbol).applyBlock block).run World.answer
      ⟨store, source, now⟩).1 = .ok ())
    (hresigns : ResignsUnresigned store block) (writes : Nat) (cuts : List Nat) :
    ∃ last : MemoryStore,
      ((Registry.full symbol).undoBlock block).run World.answer
          (cuts.foldl (fun world cut => ((Registry.full symbol).undoBlock block).cut cut world)
            (((Registry.full symbol).applyBlock block).cut writes ⟨store, source, now⟩))
        = (.ok (), ⟨last, source, now⟩) ∧
      ∀ model, (last.model model).Same (store.model model) := by
  have hbuilt := built_of_build hclean.of_snoc hstore
  have happlied := applied_of_run symbol hbuilt hclean happlies
  have hundo : ∀ t, Between store block (BlockKeys block) block.ops t →
      Runs (Between store block (BlockKeys block) block.ops) False
        (fun _ behind => behind.Alike store) ((Registry.full symbol).undoBlock block) t :=
    fun _ h => runs_undo_built symbol hbuilt hclean happlied hresigns h
  -- Every cut leaves a store between, with the ledger as it was.
  rcases runs_cut (hbuilt.runs_applyBlock symbol hclean) source now writes with
    ⟨first, hfirst, hbetween, hkept⟩
  rcases runs_cuts hundo source now cuts hbetween with ⟨behind, hbehind, hbetween, hledger⟩
  -- From there undoing in full comes to its end.
  rcases runs_run (hundo behind hbetween) source now with
    ⟨result, last, hrun, _, hsame, hpost, hfail⟩
  rw [hfirst, hbehind, hrun]
  cases result with
  | error e => exact absurd (hfail e rfl) id
  | ok u =>
      refine ⟨last, rfl, fun model => ?_⟩
      by_cases hmodel : model = ledgerModel
      · rw [hmodel, hsame, hledger, hkept]
        exact ⟨fun _ => rfl, fun _ => rfl⟩
      · exact hpost () rfl model hmodel

/-- A block that appoints, updates and removes one oracle. -/
def Block.shortLived : Block :=
  let pair : Json := .object [("currency", .string "USD"), ("token", .string "DFI")]
  .holding "a" "" 0
    [.carrying "o" .appointOracle
        [("ownerAddress", .string "x"), ("priceFeeds", .array [pair]), ("weightage", .int 1)],
      .carrying "u" .updateOracle
        [("oracleId", .string "o"), ("ownerAddress", .string "y"), ("priceFeeds", .array []),
          ("weightage", .int 2)],
      .carrying "r" .removeOracle [("oracleId", .string "o")]]

/-- Such a block is cut off after ten writes and undone in part twice before it is undone in
    full. -/
theorem undo_restores_short_lived :
    ∃ last : MemoryStore,
      ((Registry.full "DFI").undoBlock .shortLived).run World.answer
          ([3, 7].foldl
            (fun world cut => ((Registry.full "DFI").undoBlock .shortLived).cut cut world)
            (((Registry.full "DFI").applyBlock .shortLived).cut 10
              (⟨.empty, ⟨[], []⟩, 0⟩ : World MemoryStore)))
        = (.ok (), ⟨last, ⟨[], []⟩, 0⟩) ∧
      ∀ model, (last.model model).Same (MemoryStore.empty.model model) := by
  have hclean : Clean ([] ++ [Block.shortLived]) :=
    ⟨numbered_of_map (by decide), by decide, by decide, by decide, by decide, by decide⟩
  have happlies : (((Registry.full "DFI").applyBlock .shortLived).run World.answer
      (⟨.empty, ⟨[], []⟩, 0⟩ : World MemoryStore)).1 = .ok () := by decide +kernel
  have hresigns : ResignsUnresigned .empty .shortLived :=
    fun _ _ _ _ _ hnode => absurd hnode (by simp)
  exact undo_restores_interrupted "DFI" [] .shortLived .empty hclean (build_nil "DFI")
    ⟨[], []⟩ 0 happlies hresigns 10 [3, 7]

end ChainIndex
