import ChainIndex.Indexer.Basic
import ChainIndex.Entity.Oracle

/-!
# The indexers of oracles

Three indexers keep the oracles, their memberships and their snapshots: one for
appointments, one for updates, one for removals. Undoing an update or a removal brings
the oracle back as the latest snapshot left shows it.

When there is no snapshot left, the oracle must have been appointed earlier in the
same block, by an appointment that never landed or is already taken back, and there
is nothing to bring back. Any other missing snapshot is an error.

## Main definitions

* `Oracle.write`: An oracle, its memberships and its snapshot.
* `Oracle.restore`: The oracle as of its latest snapshot.
* `Indexer.appointOracle`, `updateOracle`, `removeOracle`: The indexers.
-/

namespace ChainIndex

namespace Oracle

/-- Writes the memberships of an oracle. -/
def writeMemberships (oracle : Oracle) : Program Unit :=
  oracle.priceFeeds.forM fun pair => Entity.save (Membership.ofOracle oracle pair)

/-- Deletes the memberships of an oracle in some pairs. -/
def eraseMemberships (oracleId : String) (pairs : List PricePair) : Program Unit :=
  pairs.forM fun pair => Entity.remove Membership (Membership.idOf pair oracleId)

/-- Writes an oracle, its memberships and the snapshot that `tx` leaves of it. -/
def write (oracle : Oracle) (block : Block) (tx : Transaction) : Program Unit := do
  let order ← Program.ofExcept (orderIn block tx)
  Entity.save oracle
  oracle.writeMemberships
  Entity.save (OracleSnapshot.ofOracle oracle tx.txid order)

/-- Brings an oracle back as of its latest snapshot, while `tx` is undone. -/
def restore (oracleId : String) (block : Block) (tx : Transaction) : Program Unit := do
  match ← OracleSnapshot.latest? oracleId with
  | some previous =>
    Entity.save previous.toOracle
    previous.toOracle.writeMemberships
  | none =>
    -- An oracle of this very block leaves nothing behind that could be brought back.
    if block.createsBefore .appointOracle oracleId tx.txid then return
    else throw (.notFound (Entity.model OracleSnapshot) oracleId)

end Oracle

/-- The oracle that a transaction appoints. -/
def AppointOracle.toOracle (data : AppointOracle) (txid : String) (block : Block) : Oracle where
  id := txid
  ownerAddress := data.ownerAddress
  weightage := data.weightage
  priceFeeds := data.priceFeeds
  block := block.ref

/-- The oracle as an update leaves it. -/
def UpdateOracle.toOracle (data : UpdateOracle) (block : Block) : Oracle where
  id := data.oracleId
  ownerAddress := data.ownerAddress
  weightage := data.weightage
  priceFeeds := data.priceFeeds
  block := block.ref

/-- Keeps the oracles that are appointed. -/
def Indexer.appointOracle : Indexer where
  name := "appoint_oracle"
  ops := [.appointOracle]
  hook
    | .apply, .transaction tx op, block => do
      let data ← Program.ofExcept (decodePayload AppointOracle.read tx op)
      (data.toOracle tx.txid block).write block tx
    | .undo, .transaction tx op, block => do
      let data ← Program.ofExcept (decodePayload AppointOracle.read tx op)
      Entity.remove OracleSnapshot (OracleSnapshot.idOf tx.txid block.height tx.txid)
      Oracle.eraseMemberships tx.txid data.priceFeeds
      Entity.remove Oracle tx.txid
    | _, _, _ => return

/-- Keeps the oracles that are updated. -/
def Indexer.updateOracle : Indexer where
  name := "update_oracle"
  ops := [.updateOracle]
  hook
    | .apply, .transaction tx op, block => do
      let data ← Program.ofExcept (decodePayload UpdateOracle.read tx op)
      let previous ← Entity.require Oracle data.oracleId
      -- The pairs may differ, so the old memberships go before the new ones come.
      Oracle.eraseMemberships previous.id previous.priceFeeds
      (data.toOracle block).write block tx
    | .undo, .transaction tx op, block => do
      let data ← Program.ofExcept (decodePayload UpdateOracle.read tx op)
      Entity.remove OracleSnapshot (OracleSnapshot.idOf data.oracleId block.height tx.txid)
      Oracle.eraseMemberships data.oracleId data.priceFeeds
      Oracle.restore data.oracleId block tx
    | _, _, _ => return

/-- Takes away the oracles that are removed. -/
def Indexer.removeOracle : Indexer where
  name := "remove_oracle"
  ops := [.removeOracle]
  hook
    | .apply, .transaction tx op, _ => do
      let data ← Program.ofExcept (decodePayload RemoveOracle.read tx op)
      let oracle ← Entity.require Oracle data.oracleId
      Oracle.eraseMemberships oracle.id oracle.priceFeeds
      Entity.remove Oracle oracle.id
    | .undo, .transaction tx op, block => do
      let data ← Program.ofExcept (decodePayload RemoveOracle.read tx op)
      Oracle.restore data.oracleId block tx
    | _, _, _ => return

end ChainIndex
