import ChainIndex.Indexer.Basic
import ChainIndex.Entity.Oracle
import ChainIndex.Entity.Price
import ChainIndex.Amount

/-!
# The indexer of prices

Writes a feed for every published price and, at the end of a block, one aggregate for
each pair fed in it. An oracle counts in the aggregate of a pair when its weight is
positive and its latest feed for the pair was published within an hour of the time of
the block, before or after. The aggregate is the average of those feeds by weight,
rounded down; without any there is none.

## Main definitions

* `feedValiditySeconds`: How far from the time of a block a feed still counts.
* `fedPairs`: The pairs fed in a block.
* `aggregatePair`: The aggregate of one pair.
* `Indexer.setOracleData`: The indexer.
-/

namespace ChainIndex

/-- How far from the time of a block a feed still counts, in seconds. -/
def feedValiditySeconds : Nat := 3600

/-- The feed of one published price. -/
def SetOracleData.toFeed (data : SetOracleData) (block : Block) (tx : Transaction)
    (order : UInt32) (pair : PricePair) (amount : FiniteFloat) : PriceFeed where
  id := PriceFeed.idOf pair data.oracleId tx.txid
  key := PriceFeed.keyOf pair data.oracleId
  token := pair.token
  currency := pair.currency
  oracleId := data.oracleId
  txid := tx.txid
  order := order
  time := data.timestamp
  amount := toUnits amount.val
  block := block.ref

/-- The distinct pairs that the publications of a block feed, in order. -/
def fedPairs (block : Block) : Except Error (List PricePair) := do
  let publications := block.ops.filter fun (_, op) => op.tag == .setOracleData
  let fed ← publications.mapM fun (tx, op) => do
    let data ← decodePayload SetOracleData.read tx op
    return data.feeds.map Prod.fst
  return PricePair.distinct fed.flatten

/-- Sums over the oracles of a pair that count. Prices times weights are added up in twice
    the width of a price, and everything else in 32 bits. -/
structure PriceSums where
  /-- Prices times weights. -/
  weighted : BitVec 128
  /-- Weights. -/
  weightage : UInt32
  /-- Oracles. -/
  active : UInt32
deriving DecidableEq

namespace PriceSums

/-- No oracle counts yet. -/
def zero : PriceSums := ⟨0, 0, 0⟩

/-- One more oracle counts. -/
def add (sums : PriceSums) (amount : UInt64) (weightage : UInt8) : PriceSums where
  weighted := sums.weighted + amount.toBitVec.setWidth 128 * weightage.toBitVec.setWidth 128
  weightage := sums.weightage + weightage.toUInt32
  active := sums.active + 1

/-- The average of what was summed, for a pair of `total` oracles. -/
def average? (sums : PriceSums) (total : Nat) : Option Aggregate :=
  if sums.active = 0 then none
  else some
    { amount := ⟨(sums.weighted / sums.weightage.toBitVec.setWidth 128).setWidth 64⟩
      weightage := sums.weightage
      oracles := ⟨sums.active, UInt32.ofNat total⟩ }

end PriceSums

/-- Does a feed published at `feedTime` count in a block of time `blockTime`? -/
def isTimely (feedTime blockTime : Int64) : Bool :=
  decide ((feedTime.toInt - blockTime.toInt).natAbs ≤ feedValiditySeconds)

/-- Adds one oracle of a pair to the sums, if it counts. -/
def addOracle (block : Block) (pair : PricePair) (sums : PriceSums) (member : Membership) :
    Program PriceSums := do
  if member.weightage = 0 then return sums
  else
    match ← PriceFeed.latest? pair member.oracleId with
    | none => return sums
    | some feed =>
      if isTimely feed.time block.time then return sums.add feed.amount member.weightage
      else return sums

/-- The aggregate of one pair as of a block, if any oracle counts. -/
def aggregatePair (block : Block) (pair : PricePair) : Program (Option Aggregate) := do
  let members ← Membership.listOfPair pair
  let sums ← members.foldlM (addOracle block pair) PriceSums.zero
  return sums.average? members.length

/-- Writes the aggregate of one pair, if it has one. -/
def writeAggregate (block : Block) (pair : PricePair) : Program Unit := do
  match ← aggregatePair block pair with
  | some aggregated =>
    Entity.save (
      { id := PriceAggregate.idOf pair block.height
        key := pair.key
        token := pair.token
        currency := pair.currency
        aggregated
        block := block.ref } : PriceAggregate)
  | none => return

/-- Keeps the feeds and the aggregates. -/
def Indexer.setOracleData : Indexer where
  name := "set_oracle_data"
  ops := [.setOracleData]
  hook
    | .apply, .transaction tx op, block => do
      let data ← Program.ofExcept (decodePayload SetOracleData.read tx op)
      let order ← Program.ofExcept (orderIn block tx)
      data.feeds.forM fun (pair, amount) => Entity.save (data.toFeed block tx order pair amount)
    | .apply, .blockEnd, block => do
      let pairs ← Program.ofExcept (fedPairs block)
      pairs.forM (writeAggregate block)
    | .undo, .blockEnd, block => do
      let pairs ← Program.ofExcept (fedPairs block)
      pairs.reverse.forM fun pair =>
        Entity.remove PriceAggregate (PriceAggregate.idOf pair block.height)
    | .undo, .transaction tx op, _ => do
      let data ← Program.ofExcept (decodePayload SetOracleData.read tx op)
      data.feeds.forM fun (pair, _) =>
        Entity.remove PriceFeed (PriceFeed.idOf pair data.oracleId tx.txid)
    | _, _, _ => return

end ChainIndex
