import ChainIndex.Entity.Basic

/-!
# Tokens

Tokens created on chain and the native token, which the genesis block brings. A token
is known by the transaction that created it, the native one by a key of its own.

## Main definitions

* `Token`: A token.
* `Token.native`: The native token.
* `Token.page`: Tokens in the order of creation, a page at a time.
-/

namespace ChainIndex

/-- A token. -/
structure Token where
  /-- The transaction that created it, or the key of the native token. -/
  id : String
  /-- Its symbol. -/
  symbol : String
  /-- Its name. -/
  name : String
  /-- How many decimals it has. -/
  decimal : UInt8
  /-- The most there may ever be. -/
  limit : UInt64
  /-- Is it an asset token? -/
  isDat : Bool
  /-- May more of it be minted? -/
  mintable : Bool
  /-- May it be traded? -/
  tradeable : Bool
  /-- The block that created it. -/
  block : Block.Ref
deriving DecidableEq

namespace Token

/-- The key of the native token. -/
def nativeId : String := "0"

/-- The native token. -/
def native (symbol : String) (block : Block.Ref) : Token where
  id := nativeId
  symbol := symbol
  name := "Default Defi token (" ++ symbol ++ ")"
  decimal := 8
  limit := 0
  isDat := true
  mintable := false
  tradeable := true
  block := block

/-- Tokens in the order of creation. -/
def byCreation : IndexDef := ⟨"all", .asc⟩

instance : Entity Token where
  model := "token"
  key t := t.id
  entries t := [.unpartitioned byCreation.name (encodeHeight t.block.height ++ "-" ++ t.id)]
  fields t :=
    [("id", .string t.id), ("symbol", .string t.symbol), ("name", .string t.name),
      ("decimal", Json.ofUInt8 t.decimal), ("limit", Json.ofUInt64 t.limit),
      ("is_dat", .bool t.isDat), ("mintable", .bool t.mintable),
      ("tradeable", .bool t.tradeable), ("block", t.block.toJson)]
  read := Json.record "Token" <|
    Token.mk <$> Json.field "id" Json.asString
      <*> Json.field "symbol" Json.asString
      <*> Json.field "name" Json.asString
      <*> Json.field "decimal" Json.asUInt8
      <*> Json.field "limit" Json.asUInt64
      <*> Json.field "is_dat" Json.asBool
      <*> Json.field "mintable" Json.asBool
      <*> Json.field "tradeable" Json.asBool
      <*> Json.field "block" Block.Ref.read

/-- Tokens in the order of creation, a page at a time. -/
def page (query : PageQuery) : Program (Page Token) :=
  Entity.page Token byCreation none query

end Token

end ChainIndex
