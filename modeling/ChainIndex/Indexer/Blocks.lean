import ChainIndex.Indexer.Basic
import ChainIndex.Entity.BlockRecord

/-!
# The indexer of blocks

Keeps a record of every applied block. It stands last among the indexers, so the
record is the last thing written when a block is applied and the first thing taken
back when it is undone: a block whose record is there has been applied in full.

## Main definitions

* `Indexer.blocks`: The indexer.
-/

namespace ChainIndex

/-- Keeps the records of applied blocks. -/
def Indexer.blocks : Indexer where
  name := "block"
  ops := []
  hook
    | .apply, .blockEnd, block => Entity.save (BlockRecord.ofBlock block)
    | .undo, .blockEnd, block => Entity.remove BlockRecord block.hash
    | _, _, _ => return

end ChainIndex
