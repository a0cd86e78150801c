import ChainIndex.Store.Query
import Std.Data.TreeMap
import Std.Data.TreeSet

/-!
# The store in memory

A store with an index of its own beside the records. For each model it holds the
records by primary key and, for each partition of each index, the set of places in
it: a place is a sort key together with a primary key, and places are ordered by
both. A scan walks such a set. The set follows the records: a record that is put
again or deleted first loses every place it had, and a partition without places is
dropped.

## Main definitions

* `Slot`: One partition of one index.
* `Place`: A sort key and a primary key.
* `MemoryStore`: The store.
* `MemoryStore.get`, `put`, `delete`, `scan`: Its operations.
* `MemoryStore.count`, `dump`: How many records a model has, and which.
-/

namespace ChainIndex

/-- One partition of one index. -/
structure Slot where
  /-- The index. -/
  index : String
  /-- The partition. -/
  partition : String
deriving DecidableEq

/-- Where a record stands in a partition. -/
structure Place where
  /-- The sort key. -/
  sort : String
  /-- The primary key of the record. -/
  key : String
deriving DecidableEq

/-- By index, then by partition. -/
instance : Ord Slot where
  compare := compareLex (compareOn Slot.index) (compareOn Slot.partition)

/-- By sort key, then by primary key. -/
instance : Ord Place where
  compare := compareLex (compareOn Place.sort) (compareOn Place.key)

instance : Std.TransOrd Slot :=
  inferInstanceAs (Std.TransCmp (compareLex (compareOn Slot.index) (compareOn Slot.partition)))

instance : Std.TransOrd Place :=
  inferInstanceAs (Std.TransCmp (compareLex (compareOn Place.sort) (compareOn Place.key)))

/-- What the store holds for one model. -/
structure MemoryModel where
  /-- The values by primary key, each with the entries it was put with. -/
  records : Std.TreeMap String (Json × List IndexEntry)
  /-- The places of each partition that has any. -/
  places : Std.TreeMap Slot (Std.TreeSet Place)

namespace MemoryModel

/-- A model without records. -/
def empty : MemoryModel := ⟨∅, ∅⟩

/-- Takes a place out of its partition, and the partition out if that leaves it empty. -/
def removePlace (places : Std.TreeMap Slot (Std.TreeSet Place)) (key : String)
    (entry : IndexEntry) : Std.TreeMap Slot (Std.TreeSet Place) :=
  let slot : Slot := ⟨entry.index, entry.partition⟩
  match places[slot]? with
  | none => places
  | some set =>
    let rest := set.erase ⟨entry.sort, key⟩
    -- A partition without places is not kept.
    if rest.isEmpty then places.erase slot else places.insert slot rest

/-- Puts a place into its partition. -/
def addPlace (places : Std.TreeMap Slot (Std.TreeSet Place)) (key : String)
    (entry : IndexEntry) : Std.TreeMap Slot (Std.TreeSet Place) :=
  let slot : Slot := ⟨entry.index, entry.partition⟩
  places.insert slot ((places.getD slot ∅).insert ⟨entry.sort, key⟩)

/-- Takes a record out, with every place it has. -/
def delete (model : MemoryModel) (key : String) : MemoryModel :=
  match model.records[key]? with
  | none => model
  | some (_, entries) =>
    { records := model.records.erase key
      places := entries.foldl (fun places entry => removePlace places key entry) model.places }

/-- Puts a record in, in place of one with the same key. -/
def put (model : MemoryModel) (record : Record) : MemoryModel :=
  let cleared := model.delete record.key
  { records := cleared.records.insert record.key (record.value, record.entries)
    places := record.entries.foldl (fun places entry => addPlace places record.key entry)
      cleared.places }

/-- The places a scan walks, in its direction. -/
def walk (model : MemoryModel) (scan : Scan) : List Place :=
  match model.places[(⟨scan.index, scan.partitionKey⟩ : Slot)]? with
  | none => []
  | some set =>
    match scan.direction with
    | .asc => set.toList
    | .desc => set.toList.reverse

/-- The values of the records that a scan finds. -/
def scan (model : MemoryModel) (scan : Scan) : List Json :=
  let past := (model.walk scan).dropWhile fun place => !scan.admitted place.sort
  (past.take scan.limit.toNat).filterMap fun place =>
    (model.records[place.key]?).map Prod.fst

end MemoryModel

/-- The store in memory: its models by name. -/
structure MemoryStore where
  /-- The models that were written to. -/
  models : Std.TreeMap String MemoryModel

namespace MemoryStore

/-- A store without records. -/
def empty : MemoryStore := ⟨∅⟩

/-- What the store holds for `model`. -/
def model (store : MemoryStore) (model : String) : MemoryModel :=
  store.models.getD model .empty

/-- The value under a key. -/
def get (store : MemoryStore) (model key : String) : Option Json :=
  ((store.model model).records[key]?).map Prod.fst

/-- Puts a record, in place of one with the same key. -/
def put (store : MemoryStore) (model : String) (record : Record) : MemoryStore :=
  ⟨store.models.insert model ((store.model model).put record)⟩

/-- Deletes a record; one that is not there is no matter. -/
def delete (store : MemoryStore) (model key : String) : MemoryStore :=
  match store.models[model]? with
  | none => store
  | some data => ⟨store.models.insert model (data.delete key)⟩

/-- The values that a scan finds. -/
def scan (store : MemoryStore) (model : String) (scan : Scan) : List Json :=
  (store.model model).scan scan

/-- The number of records of a model. -/
def count (store : MemoryStore) (model : String) : Nat :=
  (store.model model).records.size

/-- The number of places in the indexes of a model. -/
def extent (store : MemoryStore) (model : String) : Nat :=
  (store.model model).places.foldl (fun total _ set => total + set.size) 0

/-- Every key of a model with its value, in the order of the keys. -/
def dump (store : MemoryStore) (model : String) : List (String × Json) :=
  (store.model model).records.toList.map fun (key, value, _) => (key, value)

end MemoryStore

end ChainIndex
