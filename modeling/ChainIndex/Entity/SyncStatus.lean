import ChainIndex.Entity.Basic

/-!
# The ledger

One record says what was last attempted with which block. It is written right before
and right after each block is applied or undone, so one that does not say that the
attempt ended means that it was interrupted, and names the block to undo before
anything else is done.

## Main definitions

* `SyncPhase`: How far the last attempt has come.
* `SyncStatus`: The record.
* `SyncStatus.read?`, `SyncStatus.write`: The only one of its kind.
-/

namespace ChainIndex

/-- How far the last attempt has come. -/
inductive SyncPhase where
  /-- A block is being applied. -/
  | indexing
  /-- It has been applied. -/
  | indexed
  /-- A block is being undone. -/
  | invalidating
  /-- It has been undone. -/
  | invalidated
  /-- The attempt failed. -/
  | error
deriving DecidableEq, Repr

namespace SyncPhase

/-- Every phase. -/
def all : List SyncPhase :=
  [.indexing, .indexed, .invalidating, .invalidated, .error]

/-- The name under which a phase is stored. -/
def name : SyncPhase → String
  | .indexing => "Indexing"
  | .indexed => "Indexed"
  | .invalidating => "Invalidating"
  | .invalidated => "Invalidated"
  | .error => "Error"

/-- How a phase is shown. -/
def shown : SyncPhase → String
  | .indexing => "indexing"
  | .indexed => "indexed"
  | .invalidating => "invalidating"
  | .invalidated => "invalidated"
  | .error => "error"

/-- Has the attempt ended? Only then is the store at rest. -/
def isTerminal : SyncPhase → Bool
  | .indexed => true
  | .invalidated => true
  | _ => false

/-- Reads a phase by its name. -/
def read : Json.Reader SyncPhase :=
  Json.variant (all.map fun phase => (phase.name, phase))

end SyncPhase

/-- What was last attempted. -/
structure SyncStatus where
  /-- The hash of the block. -/
  hash : String
  /-- Its height. -/
  height : UInt32
  /-- How far the attempt has come. -/
  phase : SyncPhase
  /-- When the record was written, in seconds. -/
  updatedAt : Int64
deriving DecidableEq

namespace SyncStatus

/-- The key of the only record. -/
def onlyKey : String := "sync"

instance : Entity SyncStatus where
  model := "sync_status"
  key _ := onlyKey
  entries _ := []
  fields s :=
    [("hash", .string s.hash), ("height", Json.ofUInt32 s.height),
      ("status", .string s.phase.name), ("updated_at", Json.ofInt64 s.updatedAt)]
  read := Json.record "SyncStatus" <|
    SyncStatus.mk <$> Json.field "hash" Json.asString
      <*> Json.field "height" Json.asUInt32
      <*> Json.field "status" SyncPhase.read
      <*> Json.field "updated_at" Json.asInt64

/-- What was last attempted, if anything was. -/
def read? : Program (Option SyncStatus) :=
  Entity.find? SyncStatus onlyKey

/-- Notes how far the attempt on a block has come. -/
def write (hash : String) (height : UInt32) (phase : SyncPhase) : Program Unit := do
  let now ← Program.request .clock
  Entity.save (⟨hash, height, phase, now⟩ : SyncStatus)

end SyncStatus

end ChainIndex
