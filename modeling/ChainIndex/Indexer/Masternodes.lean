import ChainIndex.Indexer.Basic
import ChainIndex.Entity.Masternode
import ChainIndex.Chain.Payload
import ChainIndex.Amount

/-!
# The indexers of masternodes

Two indexers keep the masternodes, one for creations and one for resignations. A third
writes the statistics of every block that created or resigned one, carrying the totals
forward from the statistics before it.

A masternode locks the second output of the transaction that creates it. Undoing a
resignation marks the masternode as not resigned; one that is not there must have been
created earlier in the same block and be gone already.

## Main definitions

* `collateralOf`: The output that a masternode locks.
* `Indexer.createMasternode`, `resignMasternode`, `masternodeStats`: The indexers.
-/

namespace ChainIndex

/-- The script and the amount of the output that holds the collateral. -/
def collateralOf (tx : Transaction) (op : DecodedOp) : Except Error (String × UInt64) :=
  match tx.outputs[1]? with
  | some output => .ok (output.script.hex, toUnits output.value.val)
  | none => .error (.payload op.tag tx.txid .missingCollateral)

/-- Keeps the masternodes that are created. -/
def Indexer.createMasternode : Indexer where
  name := "create_masternode"
  ops := [.createMasternode]
  hook
    | .apply, .transaction tx op, block => do
      let data ← Program.ofExcept (decodePayload CreateMasternode.read tx op)
      let (ownerScript, collateral) ← Program.ofExcept (collateralOf tx op)
      Entity.save (
        { id := tx.txid
          ownerScript
          operatorAddress := data.operatorAddress.getD ownerScript
          creationHeight := block.height
          resignHeight := none
          resignTx := none
          collateral
          block := block.ref } : Masternode)
    | .undo, .transaction tx _, _ => Entity.remove Masternode tx.txid
    | _, _, _ => return

/-- Marks the masternodes that are resigned. -/
def Indexer.resignMasternode : Indexer where
  name := "resign_masternode"
  ops := [.resignMasternode]
  hook
    | .apply, .transaction tx op, block => do
      let data ← Program.ofExcept (decodePayload ResignMasternode.read tx op)
      let node ← Entity.require Masternode data.nodeId
      Entity.save { node with resignHeight := some block.height, resignTx := some tx.txid }
    | .undo, .transaction tx op, block => do
      let data ← Program.ofExcept (decodePayload ResignMasternode.read tx op)
      match ← Entity.find? Masternode data.nodeId with
      | some node => Entity.save { node with resignHeight := none, resignTx := none }
      | none =>
        -- A masternode of this very block may never have been stored.
        if block.createsBefore .createMasternode data.nodeId tx.txid then return
        else throw (.notFound (Entity.model Masternode) data.nodeId)
    | _, _, _ => return

/-- Totals while the operations of a block are counted. -/
structure MasternodeTotals where
  /-- Enabled masternodes. -/
  count : Int
  /-- What they lock. -/
  tvl : Int
  /-- Did the block create or resign any? -/
  changed : Bool
deriving DecidableEq

namespace MasternodeTotals

/-- The totals that a block starts from. -/
def start (previous : Option MasternodeStats) : MasternodeTotals :=
  match previous with
  | some stats => ⟨stats.count.toNat, stats.tvl.toNat, false⟩
  | none => ⟨0, 0, false⟩

/-- The totals after one more operation. -/
def afterOp (totals : MasternodeTotals) (tx : Transaction) (op : DecodedOp) :
    Program MasternodeTotals := do
  match op.tag with
  | .createMasternode =>
    let (_, locked) ← Program.ofExcept (collateralOf tx op)
    return ⟨totals.count + 1, totals.tvl + locked.toNat, true⟩
  | .resignMasternode =>
    let data ← Program.ofExcept (decodePayload ResignMasternode.read tx op)
    let node ← Entity.require Masternode data.nodeId
    return ⟨totals.count - 1, totals.tvl - node.collateral.toNat, true⟩
  | _ => return totals

/-- The statistics of a block that ends with these totals. Neither is below zero. -/
def toStats (totals : MasternodeTotals) (block : Block) : MasternodeStats where
  height := block.height
  block := block.ref
  count := UInt32.ofNat totals.count.toNat
  tvl := UInt64.ofNat totals.tvl.toNat

end MasternodeTotals

/-- Keeps the statistics. -/
def Indexer.masternodeStats : Indexer where
  name := "masternode_stats"
  ops := []
  hook
    | .apply, .blockEnd, block => do
      let previous ← MasternodeStats.before? block.height
      let totals ← block.ops.foldlM (fun totals (tx, op) => totals.afterOp tx op)
        (MasternodeTotals.start previous)
      if totals.changed then (totals.toStats block).store
    | .undo, .blockEnd, block => MasternodeStats.discard block
    | _, _, _ => return

end ChainIndex
