import ChainIndex.Json.Reader
import ChainIndex.Json.Writer

/-!
# Records and scans

What a keyed sorted store holds and what it is asked. A store keeps, for each model,
records under primary keys, and with each record any number of index entries. An
entry places the record in one partition of one index at a sort key. A scan walks one
partition in the order of sort keys, records with the same sort key in the order of
their primary keys, in either direction, from an excluded bound and up to a limit.

Keys are compared by code point, which is the order of their UTF-8 bytes.

## Main definitions

* `Direction`: Ascending or descending.
* `IndexEntry`: Where a record stands in an index.
* `Record`: What is put into a store.
* `Scan`: What a range scan asks for.
* `Scan.admitted`: Does a sort key lie past the bound?
-/

namespace ChainIndex

/-- The order of a scan. -/
inductive Direction where
  /-- From the least sort key. -/
  | asc
  /-- From the greatest sort key. -/
  | desc
deriving DecidableEq, Repr

namespace Direction

/-- The name of a direction. -/
def name : Direction → String
  | .asc => "Asc"
  | .desc => "Desc"

/-- Reads a direction by its name. -/
def read : Json.Reader Direction :=
  Json.variant [(asc.name, asc), (desc.name, desc)]

end Direction

/-- Where a record stands in an index. -/
structure IndexEntry where
  /-- The name of the index, unique within its model. -/
  index : String
  /-- The partition; empty for an index that has none. -/
  partition : String
  /-- The sort key. -/
  sort : String
deriving DecidableEq, Repr

/-- An entry of an index without partitions. -/
def IndexEntry.unpartitioned (index sort : String) : IndexEntry :=
  ⟨index, "", sort⟩

/-- A record with its index entries. -/
structure Record where
  /-- The primary key. -/
  key : String
  /-- The value. -/
  value : Json
  /-- Where the record stands in the indexes of its model. -/
  entries : List IndexEntry
deriving DecidableEq

/-- A range scan over one partition of one index. -/
structure Scan where
  /-- The index. -/
  index : String
  /-- The partition; without one, the empty one. -/
  partition : Option String
  /-- The order of the results. -/
  direction : Direction
  /-- How many results at most. -/
  limit : UInt64
  /-- A sort key that the results lie strictly past. -/
  bound : Option String
deriving DecidableEq

namespace Scan

/-- The partition that is scanned. -/
def partitionKey (scan : Scan) : String :=
  scan.partition.getD ""

/-- Does `sort` lie strictly past the bound? -/
def admitted (scan : Scan) (sort : String) : Bool :=
  match scan.bound, scan.direction with
  | none, _ => true
  | some bound, .asc => decide (bound < sort)
  | some bound, .desc => decide (sort < bound)

end Scan

end ChainIndex
