import ChainIndex.Indexer.Basic

/-!
# The registry of indexers

The indexers in their order, and how the hooks of a block are dispatched to them. A
block is applied stage by stage, each stage in the order of the indexers, transactions
in the order of the block, and a transaction only to the indexers that want its
operation. Later hooks may read what earlier ones wrote, so undoing walks all of that
backwards. The first hook that fails ends the dispatch.

An indexer that names an operation twice is handed its transactions twice.

## Main definitions

* `Registry`: Indexers in the order of dispatch.
* `Registry.interested`: Those that want an operation.
* `Registry.applyBlock`, `Registry.undoBlock`: The dispatch of a block.
-/

namespace ChainIndex

/-- Indexers in the order of dispatch. -/
structure Registry where
  /-- The indexers. -/
  indexers : List Indexer

namespace Registry

/-- The indexers that want `tag`, once for each time they name it. -/
def interested (registry : Registry) (tag : OpTag) : List Indexer :=
  registry.indexers.flatMap fun indexer =>
    (indexer.ops.filter fun op => op == tag).map fun _ => indexer

/-- Appends an indexer. -/
def add (registry : Registry) (indexer : Indexer) : Registry :=
  ⟨registry.indexers ++ [indexer]⟩

/-- Runs every hook that applies a block. -/
def applyBlock (registry : Registry) (block : Block) : Program Unit := do
  -- Only the first block seeds what the chain starts with.
  if block.height = 0 then
    registry.indexers.forM fun indexer => indexer.hook .apply .genesis block
  registry.indexers.forM fun indexer => indexer.hook .apply .blockStart block
  block.ops.forM fun (tx, op) =>
    (registry.interested op.tag).forM fun indexer =>
      indexer.hook .apply (.transaction tx op) block
  registry.indexers.forM fun indexer => indexer.hook .apply .blockEnd block

/-- Runs every hook that undoes a block, backwards. -/
def undoBlock (registry : Registry) (block : Block) : Program Unit := do
  registry.indexers.reverse.forM fun indexer => indexer.hook .undo .blockEnd block
  block.ops.reverse.forM fun (tx, op) =>
    (registry.interested op.tag).reverse.forM fun indexer =>
      indexer.hook .undo (.transaction tx op) block
  registry.indexers.reverse.forM fun indexer => indexer.hook .undo .blockStart block
  if block.height = 0 then
    registry.indexers.reverse.forM fun indexer => indexer.hook .undo .genesis block

end Registry

end ChainIndex
