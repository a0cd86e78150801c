import ChainIndex.Entity.Basic
import ChainIndex.Chain.Payload

/-!
# Oracles

Price oracles, known by the transaction that appointed them. Every appointment and
every update also leaves a snapshot, and undoing an update or a removal brings back
what the latest snapshot left says; so snapshots outlive the oracle itself. For each
pair that an oracle may price there is a membership.

## Main definitions

* `Oracle`: An oracle as of now.
* `OracleSnapshot`: An oracle as of one appointment or update.
* `Membership`: An oracle among those of a pair.
* `OracleSnapshot.latest?`: The most recent snapshot of an oracle.
* `Membership.listOfPair`: Every oracle of a pair.
-/

namespace ChainIndex

/-- An oracle. -/
structure Oracle where
  /-- The transaction that appointed it. -/
  id : String
  /-- Who owns it. -/
  ownerAddress : String
  /-- How much its prices count. -/
  weightage : UInt8
  /-- The pairs it may price. -/
  priceFeeds : List PricePair
  /-- The block of the appointment or of the latest update. -/
  block : Block.Ref
deriving DecidableEq

namespace Oracle

/-- Oracles by id. -/
def byId : IndexDef := ⟨"all", .asc⟩

instance : Entity Oracle where
  model := "oracle"
  key o := o.id
  entries o := [.unpartitioned byId.name o.id]
  fields o :=
    [("id", .string o.id), ("owner_address", .string o.ownerAddress),
      ("weightage", Json.ofUInt8 o.weightage),
      ("price_feeds", Json.ofList PricePair.toJson o.priceFeeds), ("block", o.block.toJson)]
  read := Json.record "Oracle" <|
    Oracle.mk <$> Json.field "id" Json.asString
      <*> Json.field "owner_address" Json.asString
      <*> Json.field "weightage" Json.asUInt8
      <*> Json.field "price_feeds" (Json.asList PricePair.read)
      <*> Json.field "block" Block.Ref.read

/-- Oracles by id, a page at a time. -/
def page (query : PageQuery) : Program (Page Oracle) :=
  Entity.page Oracle byId none query

end Oracle

/-- An oracle as of one appointment or update. -/
structure OracleSnapshot where
  /-- The oracle, the height and the transaction. -/
  id : String
  /-- The oracle. -/
  oracleId : String
  /-- The transaction that appointed or updated it. -/
  txid : String
  /-- The position of that transaction in its block. -/
  order : UInt32
  /-- Who owned it. -/
  ownerAddress : String
  /-- How much its prices counted. -/
  weightage : UInt8
  /-- The pairs it could price. -/
  priceFeeds : List PricePair
  /-- The block. -/
  block : Block.Ref
deriving DecidableEq

namespace OracleSnapshot

/-- The key of a snapshot. -/
def idOf (oracleId : String) (height : UInt32) (txid : String) : String :=
  oracleId ++ "-" ++ toString height.toNat ++ "-" ++ txid

/-- The snapshot that the transaction `txid`, at position `order`, leaves of `oracle`. -/
def ofOracle (oracle : Oracle) (txid : String) (order : UInt32) : OracleSnapshot where
  id := idOf oracle.id oracle.block.height txid
  oracleId := oracle.id
  txid := txid
  order := order
  ownerAddress := oracle.ownerAddress
  weightage := oracle.weightage
  priceFeeds := oracle.priceFeeds
  block := oracle.block

/-- The oracle that a snapshot was taken of. -/
def toOracle (s : OracleSnapshot) : Oracle where
  id := s.oracleId
  ownerAddress := s.ownerAddress
  weightage := s.weightage
  priceFeeds := s.priceFeeds
  block := s.block

/-- The snapshots of one oracle, the newest first: by height, then by position. -/
def byOracle : IndexDef := ⟨"oracle", .desc⟩

instance : Entity OracleSnapshot where
  model := "oracle_history"
  key s := s.id
  entries s :=
    [⟨byOracle.name, s.oracleId,
      encodeHeight s.block.height ++ "-" ++ encodeHeight s.order ++ "-" ++ s.txid⟩]
  fields s :=
    [("id", .string s.id), ("oracle_id", .string s.oracleId), ("txid", .string s.txid),
      ("order", Json.ofUInt32 s.order), ("owner_address", .string s.ownerAddress),
      ("weightage", Json.ofUInt8 s.weightage),
      ("price_feeds", Json.ofList PricePair.toJson s.priceFeeds), ("block", s.block.toJson)]
  read := Json.record "OracleHistory" <|
    OracleSnapshot.mk <$> Json.field "id" Json.asString
      <*> Json.field "oracle_id" Json.asString
      <*> Json.field "txid" Json.asString
      <*> Json.field "order" Json.asUInt32
      <*> Json.field "owner_address" Json.asString
      <*> Json.field "weightage" Json.asUInt8
      <*> Json.field "price_feeds" (Json.asList PricePair.read)
      <*> Json.field "block" Block.Ref.read

/-- The snapshots of one oracle from the newest, a page at a time. -/
def pageOfOracle (oracleId : String) (query : PageQuery) : Program (Page OracleSnapshot) :=
  Entity.page OracleSnapshot byOracle (some oracleId) query

/-- The most recent snapshot of an oracle. -/
def latest? (oracleId : String) : Program (Option OracleSnapshot) :=
  Entity.first? OracleSnapshot byOracle (some oracleId)

end OracleSnapshot

/-- An oracle among those of a pair. -/
structure Membership where
  /-- The pair and the oracle. -/
  id : String
  /-- The key of the pair. -/
  key : String
  /-- What is priced. -/
  token : String
  /-- In what. -/
  currency : String
  /-- The oracle. -/
  oracleId : String
  /-- How much its prices count. -/
  weightage : UInt8
  /-- The block of the appointment or of the latest update. -/
  block : Block.Ref
deriving DecidableEq

namespace Membership

/-- The key of a membership. -/
def idOf (pair : PricePair) (oracleId : String) : String :=
  pair.key ++ "-" ++ oracleId

/-- The membership of `oracle` in `pair`. -/
def ofOracle (oracle : Oracle) (pair : PricePair) : Membership where
  id := idOf pair oracle.id
  key := pair.key
  token := pair.token
  currency := pair.currency
  oracleId := oracle.id
  weightage := oracle.weightage
  block := oracle.block

/-- The oracles of one pair, by id. -/
def byPair : IndexDef := ⟨"pair", .asc⟩

instance : Entity Membership where
  model := "oracle_token_currency"
  key m := m.id
  entries m := [⟨byPair.name, m.key, m.oracleId⟩]
  fields m :=
    [("id", .string m.id), ("key", .string m.key), ("token", .string m.token),
      ("currency", .string m.currency), ("oracle_id", .string m.oracleId),
      ("weightage", Json.ofUInt8 m.weightage), ("block", m.block.toJson)]
  read := Json.record "OracleTokenCurrency" <|
    Membership.mk <$> Json.field "id" Json.asString
      <*> Json.field "key" Json.asString
      <*> Json.field "token" Json.asString
      <*> Json.field "currency" Json.asString
      <*> Json.field "oracle_id" Json.asString
      <*> Json.field "weightage" Json.asUInt8
      <*> Json.field "block" Block.Ref.read

/-- The oracles of one pair, a page at a time. -/
def pageOfPair (pair : PricePair) (query : PageQuery) : Program (Page Membership) :=
  Entity.page Membership byPair (some pair.key) query

/-- Every oracle of one pair. -/
def listOfPair (pair : PricePair) : Program (List Membership) :=
  Entity.list Membership byPair (some pair.key)

end Membership

end ChainIndex
