import ChainIndex.Json.Reader
import ChainIndex.Json.Writer

/-!
# Pages

Results a page at a time. The cursor of a page is the sort key of its last item, and
only a full page has one: a short page is the last. The next page starts strictly
past the cursor, so what is added or removed anywhere else shifts nothing.

## Main definitions

* `Page`: The items of a page, and the cursor to the next.
* `Page.ofScan`: The page that a scan with a limit has found.
* `PageQuery`: What is asked for.
* `PageQuery.effectiveLimit`: The limit that is used.
-/

namespace ChainIndex

/-- A page of results. -/
structure Page (α : Type) where
  /-- The items, in order. -/
  data : List α
  /-- Where the next page starts, strictly past this sort key. -/
  next : Option String
deriving DecidableEq

namespace Page

variable {α : Type}

/-- The page of what a scan with `limit` has found. -/
def ofScan (data : List α) (limit : UInt64) (sortKey : α → String) : Page α :=
  { data
    next :=
      if 0 < limit.toNat ∧ data.length = limit.toNat then data.getLast?.map sortKey
      else none }

/-- Reads the continuation of a page. -/
def readToken : Json.Reader String :=
  Json.record "PageToken" <| id <$> Json.field "next" Json.asString

/-- Reads a page whose items `read` reads. -/
def read (item : Json.Reader α) : Json.Reader (Page α) :=
  Json.record "Page" <|
    Page.mk <$> Json.field "data" (Json.asList item)
      <*> Json.fieldOr "page" (Json.asOption readToken) none

/-- The fields of a page, in order. A page that is the last has no continuation. -/
def fields (write : α → Json) (page : Page α) : List (String × Json) :=
  ("data", Json.ofList write page.data) ::
    match page.next with
    | some next => [("page", .object [("next", .string next)])]
    | none => []

/-- The page as an object. -/
def toJson (write : α → Json) (page : Page α) : Json :=
  Json.ofFields (page.fields write)

end Page

/-- A request for a page. -/
structure PageQuery where
  /-- How many items are wanted. -/
  limit : UInt64
  /-- The cursor of the page before. -/
  next : Option String
deriving DecidableEq

namespace PageQuery

/-- The most items that a page ever has. -/
def maxLimit : UInt64 := 200

/-- A request for the first page. -/
def first (limit : UInt64) : PageQuery := ⟨limit, none⟩

/-- The request that goes on behind `next`. -/
def after (query : PageQuery) (next : String) : PageQuery :=
  { query with next := some next }

/-- The limit that is used: at least one and at most `maxLimit`. -/
def effectiveLimit (query : PageQuery) : UInt64 :=
  if query.limit = 0 then 1 else if query.limit ≤ maxLimit then query.limit else maxLimit

/-- Reads a request. -/
def read : Json.Reader PageQuery :=
  Json.record "PageQuery" <|
    PageQuery.mk <$> Json.field "limit" Json.asCount
      <*> Json.fieldOr "next" (Json.asOption Json.asString) none

/-- The request as an object. -/
def toJson (query : PageQuery) : Json :=
  Json.ofFields [("limit", Json.ofUInt64 query.limit), ("next", Json.ofOption .string query.next)]

end PageQuery

end ChainIndex
