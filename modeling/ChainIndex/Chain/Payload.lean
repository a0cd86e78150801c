import ChainIndex.Chain.Block
import ChainIndex.Error

/-!
# Payloads

The payload of an operation, read as its tag promises. A payload that cannot be read
is an error that names the tag and the transaction.

A price pair is a token and a currency. Its key joins the two with a hyphen, so pairs
whose parts hold hyphens can share a key; pairs themselves are compared part by part.

## Main definitions

* `PricePair`: A token and the currency it is priced in.
* `CreateToken`, `AppointOracle`, and so on: The payloads, one for each tag.
* `SetOracleData.feeds`: Published prices as a flat list.
* `decodePayload`: The payload of a transaction, or the error that names it.
-/

namespace ChainIndex

/-- A token and the currency it is priced in. -/
structure PricePair where
  /-- What is priced. -/
  token : String
  /-- In what. -/
  currency : String
deriving DecidableEq, Repr, Inhabited

namespace PricePair

/-- The partition of everything priced in this pair. -/
def key (pair : PricePair) : String :=
  pair.token ++ "-" ++ pair.currency

/-- By token, then by currency. -/
def before (p q : PricePair) : Bool :=
  decide (p.token < q.token) || (p.token == q.token && decide (p.currency < q.currency))

/-- Puts a pair where it belongs among pairs in order, unless it is there. -/
def insertOrdered (pair : PricePair) : List PricePair → List PricePair
  | [] => [pair]
  | q :: rest =>
    if pair.before q then pair :: q :: rest
    else if pair = q then q :: rest
    else q :: insertOrdered pair rest

/-- The distinct pairs of a list, in order. -/
def distinct (pairs : List PricePair) : List PricePair :=
  pairs.foldl (fun ordered pair => insertOrdered pair ordered) []

/-- Reads a pair. -/
def read : Json.Reader PricePair :=
  Json.record "PricePair" <|
    PricePair.mk <$> Json.field "token" Json.asString <*> Json.field "currency" Json.asString

/-- The pair as an object. -/
def toJson (pair : PricePair) : Json :=
  Json.ofFields [("token", .string pair.token), ("currency", .string pair.currency)]

end PricePair

/-- Creates a token. -/
structure CreateToken where
  /-- Its symbol. -/
  symbol : String
  /-- Its name. -/
  name : String
  /-- How many decimals it has. -/
  decimal : UInt8
  /-- The most there may ever be. -/
  limit : UInt64
  /-- Is it an asset token? -/
  isDat : Bool
  /-- May more of it be minted? -/
  mintable : Bool
  /-- May it be traded? -/
  tradeable : Bool
deriving DecidableEq

/-- Reads a token creation. -/
def CreateToken.read : Json.Reader CreateToken :=
  Json.record "CreateToken" <|
    CreateToken.mk <$> Json.field "symbol" Json.asString
      <*> Json.field "name" Json.asString
      <*> Json.fieldOr "decimal" Json.asUInt8 8
      <*> Json.fieldOr "limit" Json.asUInt64 0
      <*> Json.fieldOr "isDat" Json.asBool false
      <*> Json.fieldOr "mintable" Json.asBool true
      <*> Json.fieldOr "tradeable" Json.asBool true

/-- Appoints an oracle. -/
structure AppointOracle where
  /-- Who owns it. -/
  ownerAddress : String
  /-- How much its prices count. -/
  weightage : UInt8
  /-- The pairs it may price. -/
  priceFeeds : List PricePair
deriving DecidableEq

/-- Reads an appointment. -/
def AppointOracle.read : Json.Reader AppointOracle :=
  Json.record "AppointOracle" <|
    AppointOracle.mk <$> Json.field "ownerAddress" Json.asString
      <*> Json.field "weightage" Json.asUInt8
      <*> Json.field "priceFeeds" (Json.asList PricePair.read)

/-- Replaces what an oracle was appointed with. -/
structure UpdateOracle where
  /-- The oracle. -/
  oracleId : String
  /-- Who owns it now. -/
  ownerAddress : String
  /-- How much its prices count now. -/
  weightage : UInt8
  /-- The pairs it may price now. -/
  priceFeeds : List PricePair
deriving DecidableEq

/-- Reads an update. -/
def UpdateOracle.read : Json.Reader UpdateOracle :=
  Json.record "UpdateOracle" <|
    UpdateOracle.mk <$> Json.field "oracleId" Json.asString
      <*> Json.field "ownerAddress" Json.asString
      <*> Json.field "weightage" Json.asUInt8
      <*> Json.field "priceFeeds" (Json.asList PricePair.read)

/-- Removes an oracle. -/
structure RemoveOracle where
  /-- The oracle. -/
  oracleId : String
deriving DecidableEq

/-- Reads a removal. -/
def RemoveOracle.read : Json.Reader RemoveOracle :=
  Json.record "RemoveOracle" <| RemoveOracle.mk <$> Json.field "oracleId" Json.asString

/-- A price in one currency. -/
structure CurrencyAmount where
  /-- The currency. -/
  currency : String
  /-- The price as published. -/
  amount : FiniteFloat
deriving DecidableEq

/-- Reads a price. -/
def CurrencyAmount.read : Json.Reader CurrencyAmount :=
  Json.record "CurrencyAmount" <|
    CurrencyAmount.mk <$> Json.field "currency" Json.asString <*> Json.field "amount" Json.asFloat

/-- The prices of one token. -/
structure TokenPrice where
  /-- The token. -/
  token : String
  /-- Its prices. -/
  prices : List CurrencyAmount
deriving DecidableEq

/-- Reads the prices of one token. -/
def TokenPrice.read : Json.Reader TokenPrice :=
  Json.record "TokenPrice" <|
    TokenPrice.mk <$> Json.field "token" Json.asString
      <*> Json.field "prices" (Json.asList CurrencyAmount.read)

/-- Publishes prices. -/
structure SetOracleData where
  /-- The oracle that publishes them. -/
  oracleId : String
  /-- When, by the oracle's clock, in seconds. -/
  timestamp : Int64
  /-- The prices, by token. -/
  tokenPrices : List TokenPrice
deriving DecidableEq

namespace SetOracleData

/-- Reads a publication. -/
def read : Json.Reader SetOracleData :=
  Json.record "SetOracleData" <|
    SetOracleData.mk <$> Json.field "oracleId" Json.asString
      <*> Json.field "timestamp" Json.asInt64
      <*> Json.field "tokenPrices" (Json.asList TokenPrice.read)

/-- The published prices as a flat list, in the order of publication. -/
def feeds (data : SetOracleData) : List (PricePair × FiniteFloat) :=
  data.tokenPrices.flatMap fun group =>
    group.prices.map fun price => (⟨group.token, price.currency⟩, price.amount)

end SetOracleData

/-- Creates a masternode. -/
structure CreateMasternode where
  /-- Who operates it, the owner when not said. -/
  operatorAddress : Option String
deriving DecidableEq

/-- Reads a masternode creation. -/
def CreateMasternode.read : Json.Reader CreateMasternode :=
  Json.record "CreateMasternode" <|
    CreateMasternode.mk <$> Json.fieldOr "operatorAddress" (Json.asOption Json.asString) none

/-- Resigns a masternode. -/
structure ResignMasternode where
  /-- The masternode. -/
  nodeId : String
deriving DecidableEq

/-- Reads a resignation. -/
def ResignMasternode.read : Json.Reader ResignMasternode :=
  Json.record "ResignMasternode" <| ResignMasternode.mk <$> Json.field "nodeId" Json.asString

/-- The payload of `op`, which `tx` carries, as `read` reads it. -/
def decodePayload {α : Type} (read : Json.Reader α) (tx : Transaction) (op : DecodedOp) :
    Except Error α :=
  match read op.payload with
  | .ok data => .ok data
  | .error fault => .error (.payload op.tag tx.txid (.malformed fault))

/-- The position of `tx` in `block`. It orders what several transactions of one block
    write about the same entity. -/
def orderIn (block : Block) (tx : Transaction) : Except Error UInt32 :=
  match block.orderOf? tx.txid with
  | some order => .ok order
  | none => .error (.consistency (.strayTransaction tx.txid block.hash))

end ChainIndex
