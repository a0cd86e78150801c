import ChainIndex.Store.Query
import ChainIndex.Json.Parse
import ChainIndex.Json.Print
import ChainIndex.Error

/-!
# The store in tables

A store in two relational tables. One has a row for each record, with the value as
text, and its primary key is the model and the key. The other has a row for each
index entry, and all of its columns are its primary key. Every operation is a
handful of statements over the tables, each a function here: delete, insert or
replace, and a select that joins the two tables, orders the rows and limits them.

A table holds no two rows with one primary key, so inserting a row that is there
leaves one of it. The limit of a select is a signed 64-bit number, and a negative
one limits nothing.

## Main definitions

* `RecordRow`, `EntryRow`: The rows.
* `TableStore`: The tables.
* `TableStore.get`, `put`, `delete`, `scan`: The operations of the store.
* `TableStore.count`: How many records a model has.
-/

namespace ChainIndex

/-- A row of the table of records. -/
structure RecordRow where
  /-- The model. -/
  model : String
  /-- The primary key within the model. -/
  key : String
  /-- The value as text. -/
  text : String
deriving DecidableEq

/-- A row of the table of index entries. -/
structure EntryRow where
  /-- The model. -/
  model : String
  /-- The index. -/
  index : String
  /-- The partition. -/
  partition : String
  /-- The sort key. -/
  sort : String
  /-- The primary key of the record. -/
  key : String
deriving DecidableEq

/-- The two tables. -/
structure TableStore where
  /-- A row for each record. -/
  records : List RecordRow
  /-- A row for each index entry. -/
  entries : List EntryRow
deriving DecidableEq

namespace TableStore

/-- Tables without rows. -/
def empty : TableStore := ⟨[], []⟩

/-! ## Statements -/

/-- Deletes the row of one record. -/
def deleteRecord (store : TableStore) (model key : String) : TableStore :=
  { store with records := store.records.filter fun row => !(row.model == model && row.key == key) }

/-- Deletes every entry of one record. -/
def deleteEntries (store : TableStore) (model key : String) : TableStore :=
  { store with entries := store.entries.filter fun row => !(row.model == model && row.key == key) }

/-- Inserts the row of a record, or replaces the one with its key. -/
def replaceRecord (store : TableStore) (row : RecordRow) : TableStore :=
  let cleared := store.deleteRecord row.model row.key
  { cleared with records := cleared.records ++ [row] }

/-- Inserts the row of an entry, or replaces the one that equals it. -/
def replaceEntry (store : TableStore) (row : EntryRow) : TableStore :=
  { store with entries := store.entries.filter (fun other => other != row) ++ [row] }

/-- The text of one record. -/
def selectText (store : TableStore) (model key : String) : Option String :=
  (store.records.find? fun row => row.model == model && row.key == key).map RecordRow.text

/-- Does `a` come before `b` or stand with it, by sort key and then by key? -/
def EntryRow.notAfter (a b : EntryRow) : Bool :=
  decide (a.sort < b.sort) || (a.sort == b.sort && decide (a.key ≤ b.key))

/-- The entries that a scan selects, in its order. -/
def selectEntries (store : TableStore) (model : String) (scan : Scan) : List EntryRow :=
  let selected := store.entries.filter fun row =>
    row.model == model && row.index == scan.index && row.partition == scan.partitionKey
      && scan.admitted row.sort
  match scan.direction with
  | .asc => selected.mergeSort EntryRow.notAfter
  | .desc => selected.mergeSort fun a b => EntryRow.notAfter b a

/-- At most as many rows as the limit says. -/
def limited {α : Type} (limit : UInt64) (rows : List α) : List α :=
  if limit.toNat < Nat.pow 2 63 then rows.take limit.toNat else rows

/-! ## Operations -/

/-- The value that a text of the table stands for. -/
def decodeText (text : String) : Except Error Json :=
  match Json.parse? text with
  | some value => .ok value.canonical
  | none => .error (.serialization (.other "not a document"))

/-- The value under a key. -/
def get (store : TableStore) (model key : String) : Except Error (Option Json) :=
  match store.selectText model key with
  | some text => (decodeText text).map some
  | none => .ok none

/-- Puts a record, in place of one with the same key. -/
def put (store : TableStore) (model : String) (record : Record) : TableStore :=
  -- The entries of the record that is replaced go first, then come the new ones.
  let cleared := store.deleteEntries model record.key
  let written := cleared.replaceRecord ⟨model, record.key, record.value.compact⟩
  record.entries.foldl
    (fun store entry =>
      store.replaceEntry ⟨model, entry.index, entry.partition, entry.sort, record.key⟩)
    written

/-- Deletes a record; one that is not there is no matter. -/
def delete (store : TableStore) (model key : String) : TableStore :=
  (store.deleteEntries model key).deleteRecord model key

/-- The values that a scan finds. -/
def scan (store : TableStore) (model : String) (scan : Scan) : Except Error (List Json) :=
  let joined := (store.selectEntries model scan).filterMap fun row =>
    store.selectText row.model row.key
  (limited scan.limit joined).mapM decodeText

/-- The number of records of a model. -/
def count (store : TableStore) (model : String) : Nat :=
  (store.records.filter fun row => row.model == model).length

/-- The number of index entries of a model. -/
def extent (store : TableStore) (model : String) : Nat :=
  (store.entries.filter fun row => row.model == model).length

end TableStore

end ChainIndex
