import ChainIndex.Entity.Basic

/-!
# Block records

The blocks that have been applied. The tip of what is stored is the block of greatest
height, found with a scan for one record from the top.

## Main definitions

* `BlockRecord`: An applied block.
* `BlockRecord.tip?`: The block of greatest height.
* `BlockRecord.atHeight?`: The block at a height.
* `BlockRecord.page`: Blocks from the top, a page at a time.
-/

namespace ChainIndex

/-- An applied block. -/
structure BlockRecord where
  /-- Its hash. -/
  hash : String
  /-- The hash of the block before it. -/
  previousHash : String
  /-- Its height. -/
  height : UInt32
  /-- Its time. -/
  time : Int64
  /-- The median time of the blocks before it. -/
  medianTime : Int64
  /-- Its difficulty. -/
  difficulty : FiniteFloat
  /-- Who made it. -/
  minter : Option String
  /-- Its size in bytes. -/
  size : UInt64
  /-- Its weight. -/
  weight : UInt64
  /-- Its version. -/
  version : Int64
  /-- The root of its transaction tree. -/
  merkleRoot : String
  /-- How many transactions it has. -/
  transactionCount : UInt32
deriving DecidableEq

namespace BlockRecord

/-- What is kept of a block. -/
def ofBlock (b : Block) : BlockRecord where
  hash := b.hash
  previousHash := b.previousHash
  height := b.height
  time := b.time
  medianTime := b.medianTime
  difficulty := b.difficulty
  minter := b.minter
  size := b.size
  weight := b.weight
  version := b.version
  merkleRoot := b.merkleRoot
  transactionCount := UInt32.ofNat b.transactions.length

/-- Blocks by height, the newest first. -/
def byHeight : IndexDef := ⟨"height", .desc⟩

instance : Entity BlockRecord where
  model := "block"
  key b := b.hash
  entries b := [.unpartitioned byHeight.name (encodeHeight b.height)]
  fields b :=
    [("hash", .string b.hash), ("previous_hash", .string b.previousHash),
      ("height", Json.ofUInt32 b.height), ("time", Json.ofInt64 b.time),
      ("median_time", Json.ofInt64 b.medianTime), ("difficulty", .float b.difficulty),
      ("minter", Json.ofOption .string b.minter), ("size", Json.ofUInt64 b.size),
      ("weight", Json.ofUInt64 b.weight), ("version", Json.ofInt64 b.version),
      ("merkleroot", .string b.merkleRoot),
      ("transaction_count", Json.ofUInt32 b.transactionCount)]
  read := Json.record "Block" <|
    BlockRecord.mk <$> Json.field "hash" Json.asString
      <*> Json.field "previous_hash" Json.asString
      <*> Json.field "height" Json.asUInt32
      <*> Json.field "time" Json.asInt64
      <*> Json.field "median_time" Json.asInt64
      <*> Json.field "difficulty" Json.asFloat
      <*> Json.fieldOption "minter" Json.asString
      <*> Json.field "size" Json.asUInt64
      <*> Json.field "weight" Json.asUInt64
      <*> Json.field "version" Json.asInt64
      <*> Json.field "merkleroot" Json.asString
      <*> Json.field "transaction_count" Json.asUInt32

/-- The block of greatest height. -/
def tip? : Program (Option BlockRecord) :=
  Entity.first? BlockRecord byHeight none

/-- The block at a height: the first one below the next height, if it is the one. There
    is no height past the greatest, and then nothing bounds the search. -/
def atHeight? (height : UInt32) : Program (Option BlockRecord) := do
  let greatest := UInt32.ofNat (UInt32.size - 1)
  let bound := if height = greatest then none else some (encodeHeight (height + 1))
  -- The first block below the bound may lie further down.
  let found ← Entity.scan BlockRecord byHeight none 1 bound
  return found.find? fun b => b.height == height

/-- Blocks from the top, a page at a time. The cursor is the encoded height. -/
def page (query : PageQuery) : Program (Page BlockRecord) :=
  Entity.page BlockRecord byHeight none query

end BlockRecord

end ChainIndex
