import ChainIndex.Entity.Basic
import ChainIndex.Chain.Payload

/-!
# Prices

What oracles publish, one feed for each oracle, pair and transaction, and what is made
of it, one aggregate for each pair and block. Amounts are in base units.

## Main definitions

* `PriceFeed`: A price published by one oracle for one pair.
* `Aggregate`: The weighted average of the feeds that count.
* `PriceAggregate`: The aggregate of one pair as of one block.
* `PriceFeed.latest?`, `PriceAggregate.latest?`: The most recent ones.
-/

namespace ChainIndex

/-- A price published by one oracle for one pair. -/
structure PriceFeed where
  /-- The pair, the oracle and the transaction. -/
  id : String
  /-- The pair and the oracle. -/
  key : String
  /-- What is priced. -/
  token : String
  /-- In what. -/
  currency : String
  /-- The oracle. -/
  oracleId : String
  /-- The transaction. -/
  txid : String
  /-- The position of the transaction in its block. -/
  order : UInt32
  /-- When, by the oracle's clock. -/
  time : Int64
  /-- The price. -/
  amount : UInt64
  /-- The block. -/
  block : Block.Ref
deriving DecidableEq

namespace PriceFeed

/-- The partition of the feeds of one oracle for one pair. -/
def keyOf (pair : PricePair) (oracleId : String) : String :=
  pair.key ++ "-" ++ oracleId

/-- The key of a feed. -/
def idOf (pair : PricePair) (oracleId txid : String) : String :=
  keyOf pair oracleId ++ "-" ++ txid

/-- The feeds of one oracle for one pair, the newest first: by height, then by
    position. -/
def byOraclePair : IndexDef := ⟨"feed", .desc⟩

instance : Entity PriceFeed where
  model := "oracle_price_feed"
  key f := f.id
  entries f :=
    [⟨byOraclePair.name, f.key,
      encodeHeight f.block.height ++ "-" ++ encodeHeight f.order ++ "-" ++ f.txid⟩]
  fields f :=
    [("id", .string f.id), ("key", .string f.key), ("token", .string f.token),
      ("currency", .string f.currency), ("oracle_id", .string f.oracleId),
      ("txid", .string f.txid), ("order", Json.ofUInt32 f.order), ("time", Json.ofInt64 f.time),
      ("amount", Json.ofUInt64 f.amount), ("block", f.block.toJson)]
  read := Json.record "OraclePriceFeed" <|
    PriceFeed.mk <$> Json.field "id" Json.asString
      <*> Json.field "key" Json.asString
      <*> Json.field "token" Json.asString
      <*> Json.field "currency" Json.asString
      <*> Json.field "oracle_id" Json.asString
      <*> Json.field "txid" Json.asString
      <*> Json.field "order" Json.asUInt32
      <*> Json.field "time" Json.asInt64
      <*> Json.field "amount" Json.asUInt64
      <*> Json.field "block" Block.Ref.read

/-- The feeds of one oracle for one pair from the newest, a page at a time. -/
def pageOfOracle (pair : PricePair) (oracleId : String) (query : PageQuery) :
    Program (Page PriceFeed) :=
  Entity.page PriceFeed byOraclePair (some (keyOf pair oracleId)) query

/-- The most recent feed of one oracle for one pair. -/
def latest? (pair : PricePair) (oracleId : String) : Program (Option PriceFeed) :=
  Entity.first? PriceFeed byOraclePair (some (keyOf pair oracleId))

end PriceFeed

/-- How many oracles stand behind an aggregate. -/
structure OracleCount where
  /-- Those whose latest feed counts. -/
  active : UInt32
  /-- All oracles of the pair. -/
  total : UInt32
deriving DecidableEq

namespace OracleCount

/-- Reads the counts. -/
def read : Json.Reader OracleCount :=
  Json.record "OracleCount" <|
    OracleCount.mk <$> Json.field "active" Json.asUInt32 <*> Json.field "total" Json.asUInt32

/-- The counts as an object. -/
def toJson (c : OracleCount) : Json :=
  Json.ofFields [("active", Json.ofUInt32 c.active), ("total", Json.ofUInt32 c.total)]

end OracleCount

/-- A weighted average of prices. -/
structure Aggregate where
  /-- The average. -/
  amount : UInt64
  /-- The sum of the weights. -/
  weightage : UInt32
  /-- The oracles behind it. -/
  oracles : OracleCount
deriving DecidableEq

namespace Aggregate

/-- Reads an average. -/
def read : Json.Reader Aggregate :=
  Json.record "Aggregate" <|
    Aggregate.mk <$> Json.field "amount" Json.asUInt64
      <*> Json.field "weightage" Json.asUInt32
      <*> Json.field "oracles" OracleCount.read

/-- The average as an object. -/
def toJson (a : Aggregate) : Json :=
  Json.ofFields [("amount", Json.ofUInt64 a.amount), ("weightage", Json.ofUInt32 a.weightage),
    ("oracles", a.oracles.toJson)]

end Aggregate

/-- The aggregate of one pair as of one block. -/
structure PriceAggregate where
  /-- The pair and the height. -/
  id : String
  /-- The key of the pair. -/
  key : String
  /-- What is priced. -/
  token : String
  /-- In what. -/
  currency : String
  /-- The average. -/
  aggregated : Aggregate
  /-- The block. -/
  block : Block.Ref
deriving DecidableEq

namespace PriceAggregate

/-- The key of an aggregate. -/
def idOf (pair : PricePair) (height : UInt32) : String :=
  pair.key ++ "-" ++ toString height.toNat

/-- The aggregates of one pair, the newest first. -/
def byPair : IndexDef := ⟨"pair", .desc⟩

instance : Entity PriceAggregate where
  model := "oracle_price_aggregated"
  key a := a.id
  entries a := [⟨byPair.name, a.key, encodeHeight a.block.height⟩]
  fields a :=
    [("id", .string a.id), ("key", .string a.key), ("token", .string a.token),
      ("currency", .string a.currency), ("aggregated", a.aggregated.toJson),
      ("block", a.block.toJson)]
  read := Json.record "OraclePriceAggregated" <|
    PriceAggregate.mk <$> Json.field "id" Json.asString
      <*> Json.field "key" Json.asString
      <*> Json.field "token" Json.asString
      <*> Json.field "currency" Json.asString
      <*> Json.field "aggregated" Aggregate.read
      <*> Json.field "block" Block.Ref.read

/-- The aggregates of one pair from the newest, a page at a time. -/
def pageOfPair (pair : PricePair) (query : PageQuery) : Program (Page PriceAggregate) :=
  Entity.page PriceAggregate byPair (some pair.key) query

/-- The most recent aggregate of one pair. -/
def latest? (pair : PricePair) : Program (Option PriceAggregate) :=
  Entity.first? PriceAggregate byPair (some pair.key)

end PriceAggregate

end ChainIndex
