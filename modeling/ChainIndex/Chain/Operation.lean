import ChainIndex.Json.Reader
import ChainIndex.Json.Writer

/-!
# Operations

A transaction may carry one custom operation, already decoded into a tag and a
payload. The payload stays an opaque value until whoever is interested in the tag
reads it.

## Main definitions

* `OpTag`: What an operation does.
* `DecodedOp`: A tag and its payload.
-/

namespace ChainIndex

/-- What an operation does. -/
inductive OpTag where
  /-- Creates a token. -/
  | createToken
  /-- Appoints a price oracle. -/
  | appointOracle
  /-- Replaces what an oracle was appointed with. -/
  | updateOracle
  /-- Removes an oracle. -/
  | removeOracle
  /-- Publishes prices. -/
  | setOracleData
  /-- Creates a masternode. -/
  | createMasternode
  /-- Resigns a masternode. -/
  | resignMasternode
deriving DecidableEq, Repr, Inhabited

namespace OpTag

/-- Every tag. -/
def all : List OpTag :=
  [.createToken, .appointOracle, .updateOracle, .removeOracle, .setOracleData,
    .createMasternode, .resignMasternode]

/-- The name of a tag, which is also how it is shown. -/
def name : OpTag → String
  | .createToken => "CreateToken"
  | .appointOracle => "AppointOracle"
  | .updateOracle => "UpdateOracle"
  | .removeOracle => "RemoveOracle"
  | .setOracleData => "SetOracleData"
  | .createMasternode => "CreateMasternode"
  | .resignMasternode => "ResignMasternode"

/-- Reads a tag by its name. -/
def read : Json.Reader OpTag :=
  Json.variant (all.map fun tag => (tag.name, tag))

/-- A tag as its name. -/
def toJson (tag : OpTag) : Json := .string tag.name

end OpTag

/-- An operation: its tag and a payload nobody has looked into yet. -/
structure DecodedOp where
  /-- What it does. -/
  tag : OpTag
  /-- With what. -/
  payload : Json
deriving DecidableEq, Inhabited

namespace DecodedOp

/-- Reads an operation. A payload that is left out is null. -/
def read : Json.Reader DecodedOp :=
  Json.record "DecodedOp" <|
    DecodedOp.mk <$> Json.field "tag" OpTag.read <*> Json.fieldOr "payload" Json.asAny .null

/-- The operation as an object. -/
def toJson (op : DecodedOp) : Json :=
  Json.ofFields [("tag", op.tag.toJson), ("payload", op.payload)]

end DecodedOp

end ChainIndex
