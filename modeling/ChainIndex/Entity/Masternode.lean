import ChainIndex.Entity.Basic

/-!
# Masternodes

Masternodes, known by the transaction that created them, and the statistics of every
block that created or resigned one. Statistics are kept by height alone, so a write at
a height that holds those of another block is refused, and deleting those of a block
leaves those of another alone.

## Main definitions

* `Masternode`: A masternode.
* `MasternodeStats`: How many are enabled after a block, and what they lock.
* `MasternodeStats.latest?`, `before?`: The most recent statistics.
* `MasternodeStats.store`, `discard`: Writing and deleting them.
-/

namespace ChainIndex

/-- A masternode. -/
structure Masternode where
  /-- The transaction that created it. -/
  id : String
  /-- The script of the output that holds its collateral. -/
  ownerScript : String
  /-- Who operates it. -/
  operatorAddress : String
  /-- The height at which it was created. -/
  creationHeight : UInt32
  /-- The height at which it was resigned. -/
  resignHeight : Option UInt32
  /-- The transaction that resigned it. -/
  resignTx : Option String
  /-- What it locks. -/
  collateral : UInt64
  /-- The block that created it. -/
  block : Block.Ref
deriving DecidableEq

namespace Masternode

/-- Masternodes, the most recently created first. -/
def byCreation : IndexDef := ⟨"all", .desc⟩

instance : Entity Masternode where
  model := "masternode"
  key m := m.id
  entries m := [.unpartitioned byCreation.name (encodeHeight m.creationHeight ++ "-" ++ m.id)]
  fields m :=
    [("id", .string m.id), ("owner_script", .string m.ownerScript),
      ("operator_address", .string m.operatorAddress),
      ("creation_height", Json.ofUInt32 m.creationHeight),
      ("resign_height", Json.ofOption Json.ofUInt32 m.resignHeight),
      ("resign_tx", Json.ofOption .string m.resignTx), ("collateral", Json.ofUInt64 m.collateral),
      ("block", m.block.toJson)]
  read := Json.record "Masternode" <|
    Masternode.mk <$> Json.field "id" Json.asString
      <*> Json.field "owner_script" Json.asString
      <*> Json.field "operator_address" Json.asString
      <*> Json.field "creation_height" Json.asUInt32
      <*> Json.fieldOption "resign_height" Json.asUInt32
      <*> Json.fieldOption "resign_tx" Json.asString
      <*> Json.field "collateral" Json.asUInt64
      <*> Json.field "block" Block.Ref.read

/-- Masternodes, the most recently created first, a page at a time. -/
def page (query : PageQuery) : Program (Page Masternode) :=
  Entity.page Masternode byCreation none query

end Masternode

/-- How many masternodes are enabled after a block. -/
structure MasternodeStats where
  /-- The height of the block. -/
  height : UInt32
  /-- The block. -/
  block : Block.Ref
  /-- How many are enabled. -/
  count : UInt32
  /-- What they lock in total. -/
  tvl : UInt64
deriving DecidableEq

namespace MasternodeStats

/-- The key of the statistics at a height. -/
def keyAt (height : UInt32) : String := toString height.toNat

/-- Statistics by height, the newest first. -/
def byHeight : IndexDef := ⟨"height", .desc⟩

instance : Entity MasternodeStats where
  model := "masternode_stats"
  key s := keyAt s.height
  entries s := [.unpartitioned byHeight.name (encodeHeight s.height)]
  fields s :=
    [("height", Json.ofUInt32 s.height), ("block", s.block.toJson),
      ("count", Json.ofUInt32 s.count), ("tvl", Json.ofUInt64 s.tvl)]
  read := Json.record "MasternodeStats" <|
    MasternodeStats.mk <$> Json.field "height" Json.asUInt32
      <*> Json.field "block" Block.Ref.read
      <*> Json.field "count" Json.asUInt32
      <*> Json.field "tvl" Json.asUInt64

/-- The statistics of the block at a height. -/
def atHeight? (height : UInt32) : Program (Option MasternodeStats) :=
  Entity.find? MasternodeStats (keyAt height)

/-- The most recent statistics. -/
def latest? : Program (Option MasternodeStats) :=
  Entity.first? MasternodeStats byHeight none

/-- The most recent statistics strictly below a height. -/
def before? (height : UInt32) : Program (Option MasternodeStats) := do
  return (← Entity.scan MasternodeStats byHeight none 1 (some (encodeHeight height))).head?

/-- Statistics from the newest, a page at a time. -/
def page (query : PageQuery) : Program (Page MasternodeStats) :=
  Entity.page MasternodeStats byHeight none query

/-- Stores statistics, unless those of another block have their place. -/
def store (stats : MasternodeStats) : Program Unit := do
  match ← atHeight? stats.height with
  | some existing =>
    if existing.block.hash = stats.block.hash then Entity.save stats
    else throw (.consistency (.statsTaken stats.height existing.block.hash stats.block.hash))
  | none => Entity.save stats

/-- Deletes the statistics of a block. Those of another block in their place stay. -/
def discard (block : Block) : Program Unit := do
  match ← atHeight? block.height with
  | some existing =>
    if existing.block.hash = block.hash then
      Entity.remove MasternodeStats (keyAt block.height)
  | none => return

end MasternodeStats

end ChainIndex
