import ChainIndex.Entity.Basic
import ChainIndex.Amount

/-!
# Transaction records

The transactions of applied blocks and their outputs. Transactions are listed by
block, in the order in which they stand there; outputs by transaction, in the order
of their numbers. Amounts are in base units.

## Main definitions

* `TransactionRecord`: A transaction of an applied block.
* `OutputRecord`: One of its outputs.
* `TransactionRecord.pageOfBlock`, `OutputRecord.pageOfTransaction`: A page at a time.
-/

namespace ChainIndex

/-- A transaction of an applied block. -/
structure TransactionRecord where
  /-- Its id. -/
  txid : String
  /-- Its position in the block. -/
  order : UInt32
  /-- The block. -/
  block : Block.Ref
  /-- Its hash. -/
  hash : String
  /-- Its version. -/
  version : UInt32
  /-- Its size in bytes. -/
  size : UInt64
  /-- Its virtual size. -/
  vsize : UInt64
  /-- Its weight. -/
  weight : UInt64
  /-- When it becomes final. -/
  lockTime : UInt64
  /-- How many inputs it has. -/
  inputCount : UInt32
  /-- How many outputs it has. -/
  outputCount : UInt32
  /-- The sum of its outputs. -/
  totalOutput : UInt64
deriving DecidableEq

namespace TransactionRecord

/-- What is kept of the transaction at a position of a block. -/
def ofTransaction (block : Block) (position : Nat) (tx : Transaction) : TransactionRecord where
  txid := tx.txid
  order := UInt32.ofNat position
  block := block.ref
  hash := tx.hash
  version := tx.version
  size := tx.size
  vsize := tx.vsize
  weight := tx.weight
  lockTime := tx.lockTime
  inputCount := UInt32.ofNat tx.inputs.length
  outputCount := UInt32.ofNat tx.outputs.length
  totalOutput := tx.outputs.foldl (fun total output => total + toUnits output.value.val) 0

/-- Transactions by block, in block order. -/
def byBlock : IndexDef := ⟨"block", .asc⟩

instance : Entity TransactionRecord where
  model := "transaction"
  key t := t.txid
  entries t := [⟨byBlock.name, t.block.hash, encodeHeight t.order⟩]
  fields t :=
    [("txid", .string t.txid), ("order", Json.ofUInt32 t.order), ("block", t.block.toJson),
      ("hash", .string t.hash), ("version", Json.ofUInt32 t.version),
      ("size", Json.ofUInt64 t.size), ("vsize", Json.ofUInt64 t.vsize),
      ("weight", Json.ofUInt64 t.weight), ("lock_time", Json.ofUInt64 t.lockTime),
      ("vin_count", Json.ofUInt32 t.inputCount), ("vout_count", Json.ofUInt32 t.outputCount),
      ("total_vout_value", Json.ofUInt64 t.totalOutput)]
  read := Json.record "Transaction" <|
    TransactionRecord.mk <$> Json.field "txid" Json.asString
      <*> Json.field "order" Json.asUInt32
      <*> Json.field "block" Block.Ref.read
      <*> Json.field "hash" Json.asString
      <*> Json.field "version" Json.asUInt32
      <*> Json.field "size" Json.asUInt64
      <*> Json.field "vsize" Json.asUInt64
      <*> Json.field "weight" Json.asUInt64
      <*> Json.field "lock_time" Json.asUInt64
      <*> Json.field "vin_count" Json.asUInt32
      <*> Json.field "vout_count" Json.asUInt32
      <*> Json.field "total_vout_value" Json.asUInt64

/-- The transactions of a block, a page at a time. -/
def pageOfBlock (blockHash : String) (query : PageQuery) : Program (Page TransactionRecord) :=
  Entity.page TransactionRecord byBlock (some blockHash) query

end TransactionRecord

/-- An output of a transaction. -/
structure OutputRecord where
  /-- The id of the transaction and the number of the output. -/
  id : String
  /-- The transaction. -/
  txid : String
  /-- The number of the output. -/
  n : UInt32
  /-- The amount. -/
  value : UInt64
  /-- The token it holds. -/
  tokenId : Option UInt32
  /-- The script. -/
  scriptHex : String
  /-- The kind of the script. -/
  scriptType : String
deriving DecidableEq

namespace OutputRecord

/-- The key of an output. -/
def idOf (txid : String) (n : UInt32) : String :=
  txid ++ "-" ++ toString n.toNat

/-- What is kept of an output. -/
def ofOutput (txid : String) (output : Output) : OutputRecord where
  id := idOf txid output.n
  txid := txid
  n := output.n
  value := toUnits output.value.val
  tokenId := output.tokenId
  scriptHex := output.script.hex
  scriptType := output.script.kind

/-- Outputs by transaction, in the order of their numbers. -/
def byTransaction : IndexDef := ⟨"txid", .asc⟩

instance : Entity OutputRecord where
  model := "transaction_vout"
  key o := o.id
  entries o := [⟨byTransaction.name, o.txid, encodeHeight o.n⟩]
  fields o :=
    [("id", .string o.id), ("txid", .string o.txid), ("n", Json.ofUInt32 o.n),
      ("value", Json.ofUInt64 o.value), ("token_id", Json.ofOption Json.ofUInt32 o.tokenId),
      ("script_hex", .string o.scriptHex), ("script_type", .string o.scriptType)]
  read := Json.record "TransactionVout" <|
    OutputRecord.mk <$> Json.field "id" Json.asString
      <*> Json.field "txid" Json.asString
      <*> Json.field "n" Json.asUInt32
      <*> Json.field "value" Json.asUInt64
      <*> Json.fieldOption "token_id" Json.asUInt32
      <*> Json.field "script_hex" Json.asString
      <*> Json.field "script_type" Json.asString

/-- The outputs of a transaction, a page at a time. -/
def pageOfTransaction (txid : String) (query : PageQuery) : Program (Page OutputRecord) :=
  Entity.page OutputRecord byTransaction (some txid) query

end OutputRecord

end ChainIndex
