import ChainIndex.Proofs.Chain.Built
import ChainIndex.Proofs.Indexer.Traces

/-!
# Blocks that are refused

A block that cannot be applied leaves behind what had been written until it failed, and
undoing it is to take that back. Undoing does so if the block is harmless, and only then:
an update or a removal of an oracle that was removed in an earlier block is refused, yet
undoing it brings the oracle back from its snapshots, which outlive it. In the same way
undoing a refused block that names a resigned masternode takes the resignation from it.

What a refused block leaves when it is harmless is told apart from the store before it by
nothing, and so the next attempt is refused with the same error.

## Theorems

* `harmless_of_unchanged`: A block whose undoing changes nothing is harmless.
* `refused_leaves_no_trace_iff`: When undoing a refused block leaves no trace.
* `refused_update_revives_oracle`: A refused block that does leave one.
-/

namespace ChainIndex

open Entity Program Chain

/-- The store that applying a block stopped at is one that undoing can read. -/
theorem Between.traces {base t : MemoryStore} {block : Block} {opened : String → String → Prop}
    {ops : List (Transaction × DecodedOp)} (h : Between base block opened ops t)
    (hbase : Coherent base) (hnodes : Typed Masternode base) :
    Traces (fun _ => False) (fun _ => False) t := by
  refine .start h.wf (h.typed hbase) fun k found hfound => ?_
  rcases h.admitted hnodes hfound with ⟨node, hstored, hk, _⟩
  exact ⟨node, hstored, hk.symm⟩

/-- A block whose undoing leaves the records as they were is harmless. -/
theorem harmless_of_unchanged {base behind : MemoryStore} {block : Block}
    (h : Traces (fun id => ∃ p ∈ block.ops, Revives block p id)
      (fun id => ∃ p ∈ block.ops, p.2.resigned = some id) behind)
    (hsame : behind.Alike base) : Harmless base block where
  oracles p hp id hid := by
    by_cases hcreates : block.createsBefore .appointOracle id p.1.txid = true
    · exact Or.inr hcreates
    · left
      rw [← hsame.find _ id Recorded.model_ne_ledger]
      exact h.live id ⟨p, hp, hid, by simpa using hcreates⟩
  nodes p hp id hid node hnode := by
    rw [← hsame.find _ id Recorded.model_ne_ledger] at hnode
    exact h.cleared id node ⟨p, hp, hid⟩ hnode

/-- Undoing a refused block leaves every model as it was before the block exactly if the
    block is harmless, and the next attempt is then refused with the same error. -/
theorem refused_leaves_no_trace_iff (symbol : String) (chain : List Block) (block : Block)
    (store : MemoryStore) (hclean : Clean (chain ++ [block]))
    (hstore : build symbol chain = .ok store) (source : MemorySource) (now : Int64)
    (e : Error) (left behind : World MemoryStore)
    (hrefused : ((Registry.full symbol).applyBlock block).run World.answer
      ⟨store, source, now⟩ = (.error e, left))
    (hundone : ((Registry.full symbol).undoBlock block).run World.answer left
      = (.ok (), behind)) :
    ((∀ model, (behind.store.model model).Same (store.model model)) ↔ Harmless store block) ∧
      (Harmless store block →
        (((Registry.full symbol).applyBlock block).run World.answer behind).1 = .error e) := by
  have hbuilt := built_of_build hclean.of_snoc hstore
  have happly := hbuilt.runs_applyBlock symbol hclean
  rcases runs_run happly source now with ⟨result, first, hfirst, hbetween, hledger, _, _⟩
  rw [hrefused, Prod.mk.injEq] at hfirst
  rcases hfirst with ⟨rfl, rfl⟩
  -- What a harmless block leaves is alike to the store before it.
  have hrestores : Harmless store block → ∃ last, behind = ⟨last, source, now⟩ ∧
      last.Alike store ∧ last.WF ∧ last.model ledgerModel = store.model ledgerModel := by
    intro hharmless
    rcases runs_run (runs_undoBlock symbol hbuilt.coherent hbuilt.nodes (hbuilt.fresh hclean)
      hharmless hbetween) source now with ⟨result, last, hlast, _, hkept, hpost, _⟩
    rw [hundone, Prod.mk.injEq] at hlast
    have hclosed := hpost () hlast.1.symm
    exact ⟨last, hlast.2, hclosed.alike hbuilt.coherent.wf, hclosed.wf, hkept.trans hledger⟩
  refine ⟨⟨fun hsame => ?_, fun hharmless model => ?_⟩, fun hharmless => ?_⟩
  · -- Undoing has left its traces. If nothing has changed, they were there before.
    rcases runs_run (runs_traces symbol hclean.regular
      (hbetween.traces hbuilt.coherent hbuilt.nodes)) source now with
      ⟨result, last, hlast, _, _, hpost, _⟩
    rw [hundone, Prod.mk.injEq] at hlast
    rcases hlast with ⟨hresult, rfl⟩
    exact harmless_of_unchanged (hpost () hresult.symm) fun model _ => hsame model
  · rcases hrestores hharmless with ⟨last, rfl, halike, _, hkept⟩
    by_cases hmodel : model = ledgerModel
    · rw [hmodel, hkept]
      exact ⟨fun _ => rfl, fun _ => rfl⟩
    · exact halike model hmodel
  · -- Nothing tells the two stores apart, so the block is refused in the same way.
    rcases hrestores hharmless with ⟨last, rfl, halike, hwf, _⟩
    rcases runs_alike happly halike.symm hbuilt.coherent.wf hwf source now with
      ⟨result, _, after, hrun, hagain, _⟩
    rw [hrefused, Prod.mk.injEq] at hrun
    rw [hagain, hrun.1]

/-- A block that appoints an oracle. -/
def Block.appointing : Block :=
  .holding "a" "" 0 [.carrying "o" .appointOracle
    [("ownerAddress", .string "x"), ("priceFeeds", .array []), ("weightage", .int 1)]]

/-- A block that removes the oracle again. -/
def Block.removing : Block :=
  .holding "b" "a" 1 [.carrying "r" .removeOracle [("oracleId", .string "o")]]

/-- A block that updates the oracle when it is gone. -/
def Block.belated : Block :=
  .holding "c" "b" 2 [.carrying "u" .updateOracle
    [("oracleId", .string "o"), ("ownerAddress", .string "y"), ("priceFeeds", .array []),
      ("weightage", .int 2)]]

namespace Block.belated

/-- The world in which the oracle is gone. -/
def before : World MemoryStore :=
  (([appointing, removing].forM (Registry.full "DFI").applyBlock).run World.answer
    (World.ofSource ⟨[], []⟩)).2

/-- The world in which the update has been refused. -/
def left : World MemoryStore :=
  (((Registry.full "DFI").applyBlock belated).run World.answer before).2

/-- The world in which it has been undone. -/
def behind : World MemoryStore :=
  (((Registry.full "DFI").undoBlock belated).run World.answer left).2

theorem clean : Clean ([appointing, removing] ++ [belated]) :=
  ⟨numbered_of_map (by decide), by decide, by decide, by decide, by decide, by decide⟩

theorem build_before : build "DFI" [appointing, removing] = .ok before.store :=
  build_of_run (Prod.ext (by decide +kernel) rfl)

theorem refused : ((Registry.full "DFI").applyBlock belated).run World.answer before
    = (.error (.notFound "oracle" "o"), left) :=
  Prod.ext (by decide +kernel) rfl

theorem undone : ((Registry.full "DFI").undoBlock belated).run World.answer left
    = (.ok (), behind) :=
  Prod.ext (by decide +kernel) rfl

end Block.belated

/-- The update is refused, and undoing it leaves a trace. -/
theorem refused_leaves_no_trace_iff_belated :
    let before := Block.belated.before
    let behind := Block.belated.behind
    ((∀ model, (behind.store.model model).Same (before.store.model model)) ↔
        Harmless before.store .belated) ∧
      (Harmless before.store .belated →
        (((Registry.full "DFI").applyBlock .belated).run World.answer behind).1
          = .error (.notFound "oracle" "o")) :=
  refused_leaves_no_trace_iff "DFI" [.appointing, .removing] .belated Block.belated.before.store
    Block.belated.clean Block.belated.build_before ⟨[], []⟩ 0 (.notFound "oracle" "o")
    Block.belated.left Block.belated.behind Block.belated.refused Block.belated.undone

/-- The oracle is back after that, and the update is not refused again. -/
theorem refused_update_revives_oracle :
    let before := Block.belated.before
    let behind := Block.belated.behind
    Clean ([.appointing, .removing] ++ [.belated]) ∧
      build "DFI" [.appointing, .removing] = .ok before.store ∧
      ((Registry.full "DFI").applyBlock .belated).run World.answer before
        = (.error (.notFound "oracle" "o"), Block.belated.left) ∧
      ((Registry.full "DFI").undoBlock .belated).run World.answer Block.belated.left
        = (.ok (), behind) ∧
      ¬ (∀ model, (behind.store.model model).Same (before.store.model model)) ∧
      (((Registry.full "DFI").applyBlock .belated).run World.answer behind).1 = .ok () := by
  refine ⟨Block.belated.clean, Block.belated.build_before, Block.belated.refused,
    Block.belated.undone, fun hsame => ?_, by decide +kernel⟩
  -- The oracle is not there before the update, and there after it.
  have hgone : (Block.belated.before.store.find (model Oracle) "o").isNone = true := by
    decide +kernel
  have hback : (Block.belated.behind.store.find (model Oracle) "o").isNone = false := by
    decide +kernel
  have hfind := (hsame (model Oracle)).records "o"
  change Block.belated.behind.store.find (model Oracle) "o"
    = Block.belated.before.store.find (model Oracle) "o" at hfind
  rw [hfind, hgone] at hback
  exact absurd hback (by decide)

end ChainIndex
