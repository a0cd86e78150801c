import ChainIndex.Store.Table

/-!
# Tables as text

The rows of both tables as one document: an array of two arrays, with an array of texts
for each row. A store that is written so and read again is the same store.

## Main definitions

* `TableStore.toText`: A store as text.
* `TableStore.ofText?`: The store that a text holds.
-/

namespace ChainIndex

/-- The columns of a row of records. -/
def RecordRow.columns (row : RecordRow) : List String :=
  [row.model, row.key, row.text]

/-- The row of records with these columns. -/
def RecordRow.ofColumns? : List String → Option RecordRow
  | [model, key, text] => some ⟨model, key, text⟩
  | _ => none

/-- The columns of a row of entries. -/
def EntryRow.columns (row : EntryRow) : List String :=
  [row.model, row.index, row.partition, row.sort, row.key]

/-- The row of entries with these columns. -/
def EntryRow.ofColumns? : List String → Option EntryRow
  | [model, index, partition, sort, key] => some ⟨model, index, partition, sort, key⟩
  | _ => none

namespace TableStore

/-- A store as a document. -/
def toDocument (store : TableStore) : Json :=
  .array
    [Json.ofList (fun row => Json.ofList .string row.columns) store.records,
      Json.ofList (fun row => Json.ofList .string row.columns) store.entries]

/-- The rows of a table of a document. -/
def rowsOf? {α : Type} (ofColumns? : List String → Option α) (value : Json) :
    Option (List α) := do
  let rows ← (Json.asList (Json.asList Json.asString) value).toOption
  rows.mapM ofColumns?

/-- The store that a document holds. -/
def ofDocument? : Json → Option TableStore
  | .array [records, entries] => do
    return ⟨← rowsOf? RecordRow.ofColumns? records, ← rowsOf? EntryRow.ofColumns? entries⟩
  | _ => none

/-- A store as text. -/
def toText (store : TableStore) : String :=
  store.toDocument.compact

/-- The store that a text holds. -/
def ofText? (text : String) : Option TableStore :=
  (Json.parse? text).bind ofDocument?

end TableStore

end ChainIndex
