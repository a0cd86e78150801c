import ChainIndex.Program.Basic
import ChainIndex.Page

/-!
# Entities

A kind of record that has a type. An entity says which model its records belong to,
what the primary key of a value is, where the value stands in the indexes, and how it
is written and read. Primary keys depend only on what never changes about a value, so
putting it twice is putting it once and deleting it is never ambiguous.

The operations are programs of store calls. A value that was stored and cannot be
read back is an error of the read, not a missing record.

## Main definitions

* `Entity`: A kind of record with a type.
* `IndexDef`: An index and its natural order.
* `Entity.find?`, `Entity.require`, `Entity.save`, `Entity.remove`: One record.
* `Entity.scan`, `Entity.page`, `Entity.list`, `Entity.first?`: The records of a
  partition.
-/

namespace ChainIndex

/-- An index and the order in which it is naturally read. -/
structure IndexDef where
  /-- The name, unique within its model. -/
  name : String
  /-- The natural order. -/
  direction : Direction
deriving DecidableEq

/-- A kind of record with a type. -/
class Entity (α : Type) where
  /-- The model that the records belong to. -/
  model : String
  /-- The primary key. -/
  key : α → String
  /-- Where a value stands in the indexes. -/
  entries : α → List IndexEntry
  /-- The fields of the stored value, in the order of declaration. -/
  fields : α → List (String × Json)
  /-- Reads a stored value. -/
  read : Json.Reader α

namespace Entity

variable {α : Type} [Entity α]

/-- The stored value. -/
def toJson (a : α) : Json :=
  Json.ofFields (fields a)

/-- What is put into the store for a value. -/
def toRecord (a : α) : Record :=
  ⟨key a, toJson a, entries a⟩

/-- The sort key of a value in an index: that of its first entry there. -/
def sortKey (index : IndexDef) (a : α) : String :=
  match (entries a).find? fun entry => entry.index == index.name with
  | some entry => entry.sort
  | none => ""

/-- Reads a stored value, or reports what is wrong with it. -/
def decode (value : Json) : Except Error α :=
  match read value with
  | .ok a => .ok a
  | .error fault => .error (.serialization fault)

/-! ## One record -/

variable (α) in
/-- The value under a key, if there is one. -/
def find? (key : String) : Program (Option α) := do
  match ← Program.request (.get (model α) key) with
  | some value => some <$> Program.ofExcept (decode value)
  | none => return none

variable (α) in
/-- The value under a key that has to be there. -/
def require (key : String) : Program α := do
  match ← find? α key with
  | some a => return a
  | none => throw (.notFound (model α) key)

/-- Stores a value, in place of one with the same key. -/
def save (a : α) : Program Unit :=
  Program.request (.put (model α) (toRecord a))

variable (α) in
/-- Deletes the value under a key, if there is one. -/
def remove (key : String) : Program Unit :=
  Program.request (.delete (model α) key)

/-! ## The records of a partition -/

variable (α) in
/-- The values that one scan of an index finds. -/
def scan (index : IndexDef) (partition : Option String) (limit : UInt64)
    (bound : Option String) : Program (List α) := do
  let values ← Program.request
    (.scan (model α) ⟨index.name, partition, index.direction, limit, bound⟩)
  Program.ofExcept (values.mapM decode)

variable (α) in
/-- A page of a partition in the natural order of the index. -/
def page (index : IndexDef) (partition : Option String) (query : PageQuery) :
    Program (Page α) := do
  let limit := query.effectiveLimit
  let data ← scan α index partition limit query.next
  return Page.ofScan data limit (sortKey index)

/-- The rest of a partition past `bound`, in full pages up to the first short one,
    behind what has been found. At most `pages` pages are asked for. -/
def listFrom (index : IndexDef) (partition : Option String) :
    Nat → List α → Option String → Program (List α)
  | 0, _, _ => throw (.other "the index does not end")
  | pages + 1, found, bound => do
    let batch ← scan α index partition PageQuery.maxLimit bound
    -- A full page may have another one behind it, a short one is the last.
    let all := found ++ batch
    if batch.length < PageQuery.maxLimit.toNat then return all
    else listFrom index partition pages all (batch.getLast?.map (sortKey index))

variable (α) in
/-- Every value of a partition in the natural order of the index. Each page but the
    last takes entries from the partition, so there are no more pages than the model
    has entries, and one. -/
def list (index : IndexDef) (partition : Option String) : Program (List α) := do
  let extent ← Program.request (.extent (model α))
  listFrom index partition (extent + 1) [] none

variable (α) in
/-- The first value of a partition in the natural order of the index. -/
def first? (index : IndexDef) (partition : Option String) : Program (Option α) := do
  return (← scan α index partition 1 none).head?

end Entity

end ChainIndex
