import ChainIndex.Chain.Operation
import ChainIndex.Text.Hex

/-!
# Blocks

Blocks as a chain source serves them, with their transactions in full. Only the hash,
the height and the two times of a block have to be given, and only the id of a
transaction; the rest has defaults. The block before the first one has no hash, so
the previous hash of a genesis block is empty.

A transaction counts by its first position: where two transactions of one block share
an id, the first is meant.

## Main definitions

* `Block`, `Transaction`, `Input`, `Output`, `ScriptPubKey`: What a source serves.
* `Block.Ref`: The block that a record came from.
* `Block.follows`: Does a block follow directly on another?
* `Block.ops`: The transactions with an operation, in order.
* `Block.orderOf?`: The position of a transaction.
* `Block.createsBefore`: Was an entity created earlier in the same block?
* `Block.read`, `Block.toJson`: The document form.

## Theorems

* `follows_iff`, `height_of_follows`: What it is to follow.
* `map_opsAt`: The positions are all that tells the two lists of operations apart.
-/

namespace ChainIndex

/-- The script of an output. -/
structure ScriptPubKey where
  /-- The script itself, in hexadecimal. -/
  hex : String
  /-- Its kind. -/
  kind : String
deriving DecidableEq, Inhabited

/-- An input of a transaction. -/
structure Input where
  /-- The transaction whose output is spent. -/
  txid : Option String
  /-- Which of its outputs. -/
  vout : Option UInt32
  /-- The script of an input that creates coins. -/
  coinbase : Option String
  /-- The sequence number. -/
  sequence : UInt64
deriving DecidableEq, Inhabited

/-- An output of a transaction. -/
structure Output where
  /-- The amount in coins. -/
  value : FiniteFloat
  /-- The number of the output. -/
  n : UInt32
  /-- Who may spend it. -/
  script : ScriptPubKey
  /-- The token it holds, the native one when not said. -/
  tokenId : Option UInt32
deriving DecidableEq, Inhabited

/-- A transaction. -/
structure Transaction where
  /-- Its id. -/
  txid : String
  /-- Its hash, witness data included. -/
  hash : String
  /-- Its version. -/
  version : UInt32
  /-- Its size in bytes. -/
  size : UInt64
  /-- Its virtual size. -/
  vsize : UInt64
  /-- Its weight. -/
  weight : UInt64
  /-- When it becomes final. -/
  lockTime : UInt64
  /-- What it spends. -/
  inputs : List Input
  /-- What it pays. -/
  outputs : List Output
  /-- The custom operation it carries, if any. -/
  op : Option DecodedOp
deriving DecidableEq, Inhabited

/-- A block with its transactions. -/
structure Block where
  /-- Its hash. -/
  hash : String
  /-- The hash of the block before it; empty for the first block. -/
  previousHash : String
  /-- Its height. -/
  height : UInt32
  /-- Its time, in seconds. -/
  time : Int64
  /-- The median time of the blocks before it. -/
  medianTime : Int64
  /-- Its difficulty. -/
  difficulty : FiniteFloat
  /-- Who made it. -/
  minter : Option String
  /-- Its size in bytes. -/
  size : UInt64
  /-- Its weight. -/
  weight : UInt64
  /-- Its version. -/
  version : Int64
  /-- The root of its transaction tree. -/
  merkleRoot : String
  /-- Its transactions, in order. -/
  transactions : List Transaction
deriving DecidableEq, Inhabited

/-- The block that a record came from. -/
structure Block.Ref where
  /-- The hash of the block. -/
  hash : String
  /-- Its height. -/
  height : UInt32
  /-- Its time. -/
  time : Int64
  /-- The median time of the blocks before it. -/
  medianTime : Int64
deriving DecidableEq, Inhabited

namespace Block

/-- What records keep of the block they came from. -/
def ref (b : Block) : Block.Ref :=
  ⟨b.hash, b.height, b.time, b.medianTime⟩

/-- Does `b` follow directly on the block `parentHash` at `parentHeight`? Heights are
    counted in 32 bits, so behind the greatest one they start again. -/
def follows (b : Block) (parentHash : String) (parentHeight : UInt32) : Bool :=
  b.height == parentHeight + 1 && b.previousHash == parentHash

theorem follows_iff {b : Block} {parentHash : String} {parentHeight : UInt32} :
    b.follows parentHash parentHeight = true ↔
      b.height = parentHeight + 1 ∧ b.previousHash = parentHash := by
  rw [follows, Bool.and_eq_true, beq_iff_eq, beq_iff_eq]

/-- Unless it starts again, the height of a block that follows is one more. -/
theorem height_of_follows {b : Block} {parentHash : String} {parentHeight : UInt32}
    (h : b.follows parentHash parentHeight = true)
    (hroom : parentHeight.toNat + 1 < UInt32.size) :
    b.height.toNat = parentHeight.toNat + 1 := by
  rw [(follows_iff.mp h).1, UInt32.toNat_add]
  exact Nat.mod_eq_of_lt hroom

/-- The transactions that carry an operation, each with its position, in order. -/
def opsAt (b : Block) : List (Nat × Transaction × DecodedOp) :=
  b.transactions.zipIdx.filterMap fun (tx, position) => tx.op.map fun op => (position, tx, op)

/-- The transactions that carry an operation, in order. -/
def ops (b : Block) : List (Transaction × DecodedOp) :=
  b.transactions.filterMap fun tx => tx.op.map fun op => (tx, op)

theorem map_opsAt (b : Block) : b.opsAt.map Prod.snd = b.ops := by
  have key : ∀ (txs : List Transaction) (k : Nat),
      ((txs.zipIdx k).filterMap fun (tx, position) =>
          tx.op.map fun op => (position, tx, op)).map Prod.snd
        = txs.filterMap fun tx => tx.op.map fun op => (tx, op) := by
    intro txs
    induction txs with
    | nil => intro k; rfl
    | cons tx rest ih =>
      intro k
      simp only [List.zipIdx_cons, List.filterMap_cons]
      -- Both lists skip a transaction without operation and keep any other.
      cases h : tx.op with
      | none => simpa using ih (k + 1)
      | some op => simpa using ih (k + 1)
  exact key b.transactions 0

/-- The first position of the transaction `txid`. -/
def orderOf? (b : Block) (txid : String) : Option UInt32 :=
  (b.transactions.findIdx? fun tx => tx.txid == txid).map UInt32.ofNat

/-- Does a transaction ahead of `txid` carry `tag` under the id `id`? Such a
    transaction created the entity `id`. -/
def createsBefore (b : Block) (tag : OpTag) (id txid : String) : Bool :=
  (b.ops.takeWhile fun (tx, _) => tx.txid != txid).any fun (tx, op) =>
    op.tag == tag && tx.txid == id

end Block

/-! ## Document form -/

namespace ScriptPubKey

/-- The script of an output that names none. -/
def empty : ScriptPubKey := ⟨"", ""⟩

/-- Reads a script. -/
def read : Json.Reader ScriptPubKey :=
  Json.record "ScriptPubKey" <|
    ScriptPubKey.mk <$> Json.fieldOr "hex" Json.asString ""
      <*> Json.fieldOr "type" Json.asString ""

/-- The script as an object. -/
def toJson (s : ScriptPubKey) : Json :=
  Json.ofFields [("hex", .string s.hex), ("type", .string s.kind)]

end ScriptPubKey

namespace Input

/-- Reads an input. -/
def read : Json.Reader Input :=
  Json.record "SourceVin" <|
    Input.mk <$> Json.fieldOr "txid" (Json.asOption Json.asString) none
      <*> Json.fieldOr "vout" (Json.asOption Json.asUInt32) none
      <*> Json.fieldOr "coinbase" (Json.asOption Json.asString) none
      <*> Json.fieldOr "sequence" Json.asUInt64 0

/-- The input as an object. -/
def toJson (i : Input) : Json :=
  Json.ofFields [("txid", Json.ofOption .string i.txid),
    ("vout", Json.ofOption Json.ofUInt32 i.vout),
    ("coinbase", Json.ofOption .string i.coinbase), ("sequence", Json.ofUInt64 i.sequence)]

end Input

namespace Output

/-- Reads an output. -/
def read : Json.Reader Output :=
  Json.record "SourceVout" <|
    Output.mk <$> Json.field "value" Json.asFloat
      <*> Json.field "n" Json.asUInt32
      <*> Json.fieldOr "scriptPubKey" ScriptPubKey.read .empty
      <*> Json.fieldOr "tokenId" (Json.asOption Json.asUInt32) none

/-- The output as an object. -/
def toJson (o : Output) : Json :=
  Json.ofFields [("value", .float o.value), ("n", Json.ofUInt32 o.n),
    ("scriptPubKey", o.script.toJson), ("tokenId", Json.ofOption Json.ofUInt32 o.tokenId)]

end Output

namespace Transaction

/-- Reads a transaction. -/
def read : Json.Reader Transaction :=
  Json.record "SourceTransaction" <|
    Transaction.mk <$> Json.field "txid" Json.asString
      <*> Json.fieldOr "hash" Json.asString ""
      <*> Json.fieldOr "version" Json.asUInt32 0
      <*> Json.fieldOr "size" Json.asUInt64 0
      <*> Json.fieldOr "vsize" Json.asUInt64 0
      <*> Json.fieldOr "weight" Json.asUInt64 0
      <*> Json.fieldOr "locktime" Json.asUInt64 0
      <*> Json.fieldOr "vin" (Json.asList Input.read) []
      <*> Json.fieldOr "vout" (Json.asList Output.read) []
      <*> Json.fieldOr "op" (Json.asOption DecodedOp.read) none

/-- The transaction as an object. -/
def toJson (tx : Transaction) : Json :=
  Json.ofFields [("txid", .string tx.txid), ("hash", .string tx.hash),
    ("version", Json.ofUInt32 tx.version), ("size", Json.ofUInt64 tx.size),
    ("vsize", Json.ofUInt64 tx.vsize), ("weight", Json.ofUInt64 tx.weight),
    ("locktime", Json.ofUInt64 tx.lockTime), ("vin", Json.ofList Input.toJson tx.inputs),
    ("vout", Json.ofList Output.toJson tx.outputs), ("op", Json.ofOption DecodedOp.toJson tx.op)]

end Transaction

namespace Block

/-- Reads a block. -/
def read : Json.Reader Block :=
  Json.record "SourceBlock" <|
    Block.mk <$> Json.field "hash" Json.asString
      <*> Json.fieldOr "previousblockhash" Json.asString ""
      <*> Json.field "height" Json.asUInt32
      <*> Json.field "time" Json.asInt64
      <*> Json.field "mediantime" Json.asInt64
      <*> Json.fieldOr "difficulty" Json.asFloat default
      <*> Json.fieldOr "minter" (Json.asOption Json.asString) none
      <*> Json.fieldOr "size" Json.asUInt64 0
      <*> Json.fieldOr "weight" Json.asUInt64 0
      <*> Json.fieldOr "version" Json.asInt64 0
      <*> Json.fieldOr "merkleroot" Json.asString ""
      <*> Json.fieldOr "tx" (Json.asList Transaction.read) []

/-- The block as an object. -/
def toJson (b : Block) : Json :=
  Json.ofFields [("hash", .string b.hash), ("previousblockhash", .string b.previousHash),
    ("height", Json.ofUInt32 b.height), ("time", Json.ofInt64 b.time),
    ("mediantime", Json.ofInt64 b.medianTime), ("difficulty", .float b.difficulty),
    ("minter", Json.ofOption .string b.minter), ("size", Json.ofUInt64 b.size),
    ("weight", Json.ofUInt64 b.weight), ("version", Json.ofInt64 b.version),
    ("merkleroot", .string b.merkleRoot), ("tx", Json.ofList Transaction.toJson b.transactions)]

end Block

namespace Block.Ref

/-- Reads what a record keeps of its block. -/
def read : Json.Reader Block.Ref :=
  Json.record "BlockRef" <|
    Block.Ref.mk <$> Json.field "hash" Json.asString <*> Json.field "height" Json.asUInt32
      <*> Json.field "time" Json.asInt64 <*> Json.field "median_time" Json.asInt64

/-- What a record keeps of its block, as an object. -/
def toJson (r : Block.Ref) : Json :=
  Json.ofFields [("hash", .string r.hash), ("height", Json.ofUInt32 r.height),
    ("time", Json.ofInt64 r.time), ("median_time", Json.ofInt64 r.medianTime)]

end Block.Ref

end ChainIndex
