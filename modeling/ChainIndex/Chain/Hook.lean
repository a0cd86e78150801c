import ChainIndex.Chain.Block

/-!
# Hooks

The points of a block at which an indexer may act. A block is applied in four stages:
the bootstrap of the chain, for the genesis block only; the start of the block; each
of its transactions with an operation; the end of the block. It is undone in the same
stages backwards, so each hook has a counterpart in the other phase.

## Main definitions

* `Phase`: Applying or undoing.
* `Stage`: What of the block a hook is about.
* `hookName`: The name of a hook.
-/

namespace ChainIndex

/-- What is done with a block. -/
inductive Phase where
  /-- Its records are written. -/
  | apply
  /-- Its records are taken back. -/
  | undo
deriving DecidableEq, Repr

/-- What of a block a hook is about. -/
inductive Stage where
  /-- The bootstrap of the chain. -/
  | genesis
  /-- The start of the block. -/
  | blockStart
  /-- A transaction and the operation it carries. -/
  | transaction (tx : Transaction) (op : DecodedOp)
  /-- The end of the block. -/
  | blockEnd
deriving DecidableEq

/-- The name of a hook. -/
def hookName : Phase → Stage → String
  | .apply, .genesis => "seed_genesis"
  | .apply, .blockStart => "index_block_start"
  | .apply, .transaction _ _ => "index_transaction"
  | .apply, .blockEnd => "index_block_end"
  | .undo, .blockEnd => "invalidate_block_end"
  | .undo, .transaction _ _ => "invalidate_transaction"
  | .undo, .blockStart => "invalidate_block_start"
  | .undo, .genesis => "unseed_genesis"

/-- Where a hook acts, as text: the id of its transaction or the height of its block. -/
def Stage.place (stage : Stage) (block : Block) : String :=
  match stage with
  | .transaction tx _ => tx.txid
  | _ => toString block.height.toNat

end ChainIndex
