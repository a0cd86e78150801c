import ChainIndex.Indexer.Basic
import ChainIndex.Entity.TransactionRecord

/-!
# The indexer of transactions

Writes the transactions of a block and their outputs at its start, outputs first, and
takes them back in the opposite order.

## Main definitions

* `Indexer.transactions`: The indexer.
-/

namespace ChainIndex

/-- Writes the transaction at a position, its outputs first. -/
def writeTransaction (block : Block) (position : Nat) (tx : Transaction) : Program Unit := do
  tx.outputs.forM fun output => Entity.save (OutputRecord.ofOutput tx.txid output)
  Entity.save (TransactionRecord.ofTransaction block position tx)

/-- Takes a transaction back, and then its outputs from the last. -/
def eraseTransaction (tx : Transaction) : Program Unit := do
  Entity.remove TransactionRecord tx.txid
  tx.outputs.reverse.forM fun output =>
    Entity.remove OutputRecord (OutputRecord.idOf tx.txid output.n)

/-- Keeps the records of transactions and their outputs. -/
def Indexer.transactions : Indexer where
  name := "transaction"
  ops := []
  hook
    | .apply, .blockStart, block =>
      block.transactions.zipIdx.forM fun (tx, position) => writeTransaction block position tx
    | .undo, .blockStart, block => block.transactions.reverse.forM eraseTransaction
    | _, _, _ => return

end ChainIndex
