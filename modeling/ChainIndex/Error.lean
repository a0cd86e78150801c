import ChainIndex.Chain.Operation

/-!
# Errors

Everything that can go wrong while blocks are applied, undone or queried. The
constructors are the causes; what a user reads is worded in `message` and nowhere
else.

Two causes steer the follower and are asked for by name. A source that is asked for
a block past its best one says so with `SourceError.heightOutOfRange`: the expected
end of the chain. A record that has to be there and is not is `Error.notFound`.

## Main definitions

* `SourceError`: What a chain source reports.
* `Error`: All causes.
* `Error.message`: The wording.
-/

namespace ChainIndex

/-- What a chain source reports. -/
inductive SourceError where
  /-- There is no block at this height yet. -/
  | heightOutOfRange (height : UInt32)
  /-- No block has this hash. -/
  | blockNotFound (hash : String)
  /-- The call itself failed. -/
  | rpc (reason : String)
deriving DecidableEq

/-- The wording of a source error. -/
def SourceError.message : SourceError → String
  | .heightOutOfRange height => "block height " ++ toString height.toNat ++ " out of range"
  | .blockNotFound hash => "block not found: " ++ hash
  | .rpc reason => "RPC error: " ++ reason

/-- What is wrong with the payload of an operation or the transaction around it. -/
inductive PayloadFault where
  /-- The payload does not have the shape that its tag promises. -/
  | malformed (fault : Json.Fault)
  /-- A masternode is created without the output that holds its collateral. -/
  | missingCollateral
  /-- Anything else, in words. -/
  | other (reason : String)
deriving DecidableEq

/-- The wording of a payload fault. -/
def PayloadFault.message : PayloadFault → String
  | .malformed fault => fault.message
  | .missingCollateral => "missing collateral output"
  | .other reason => reason

/-- What must not be. -/
inductive Inconsistency where
  /-- A transaction is looked for in a block that does not hold it. -/
  | strayTransaction (txid block : String)
  /-- A block has another height than expected. -/
  | heightMismatch (block : String) (found expected : UInt32)
  /-- The statistics of a height belong to another block. -/
  | statsTaken (height : UInt32) (owner refused : String)
  /-- Anything else, in words. -/
  | other (reason : String)
deriving DecidableEq

/-- The wording of an inconsistency. -/
def Inconsistency.message : Inconsistency → String
  | .strayTransaction txid block =>
    "transaction " ++ txid ++ " is not part of block " ++ block
  | .heightMismatch block found expected =>
    "block " ++ block ++ " is at height " ++ toString found.toNat ++ ", expected "
      ++ toString expected.toNat
  | .statsTaken height owner refused =>
    "masternode stats at height " ++ toString height.toNat ++ " belong to block " ++ owner
      ++ ", refusing to overwrite with " ++ refused
  | .other reason => reason

/-- Why the first block could not be applied. -/
inductive GenesisFault where
  /-- The source serves a block of another height as the first one. -/
  | wrongHeight (height : UInt32)
  /-- A step of it failed, for this reason. -/
  | failed (reason : String)
deriving DecidableEq

/-- The wording of a genesis fault. -/
def GenesisFault.message : GenesisFault → String
  | .wrongHeight height => "source returned height " ++ toString height.toNat ++ " for block 0"
  | .failed reason => reason

/-- What is wrong with a configuration. -/
inductive ConfigFault where
  /-- The interval between two cycles is zero. -/
  | zeroPollInterval
  /-- The document cannot be read as a configuration. -/
  | unreadable
  /-- Anything else, in words. -/
  | other (reason : String)
deriving DecidableEq

/-- The wording of a configuration fault. -/
def ConfigFault.message : ConfigFault → String
  | .zeroPollInterval => "poll_interval_ms must be > 0"
  | .unreadable => "not a configuration document"
  | .other reason => reason

/-- What can go wrong. -/
inductive Error where
  /-- The chain source reported an error. -/
  | source (error : SourceError)
  /-- The store failed. -/
  | storage (reason : String)
  /-- A value could not be read. -/
  | serialization (fault : Json.Fault)
  /-- An operation has a payload its tag does not promise. -/
  | payload (tag : OpTag) (txid : String) (fault : PayloadFault)
  /-- An indexer failed. -/
  | handler (name reason : String)
  /-- A record that has to be there is not. -/
  | notFound (entity key : String)
  /-- A write would break what the records say together. -/
  | consistency (fault : Inconsistency)
  /-- The first block could not be applied. -/
  | genesis (fault : GenesisFault)
  /-- The configuration is refused. -/
  | config (fault : ConfigFault)
  /-- The cycle under way did not end in time. -/
  | stopTimeout (milliseconds : UInt64)
  /-- Anything else, in words. -/
  | other (reason : String)
deriving DecidableEq

namespace Error

/-- The wording of an error. -/
def message : Error → String
  | .source error => error.message
  | .storage reason => "Storage error: " ++ reason
  | .serialization fault => "Serialization error: " ++ fault.message
  | .payload tag txid fault =>
    "Malformed " ++ tag.name ++ " payload in tx " ++ txid ++ ": " ++ fault.message
  | .handler name reason => "Handler error in '" ++ name ++ "': " ++ reason
  | .notFound entity key => entity ++ " not found: " ++ key
  | .consistency fault => "Consistency violation: " ++ fault.message
  | .genesis fault => "Genesis indexing failed: " ++ fault.message
  | .config fault => "Config error: " ++ fault.message
  | .stopTimeout milliseconds =>
    "Timed out after " ++ toString milliseconds.toNat
      ++ "ms waiting for the sync cycle to finish"
  | .other reason => reason

/-- Is a record missing that has to be there? -/
def isNotFound : Error → Bool
  | .notFound _ _ => true
  | _ => false

/-- Did the source report the expected end of the chain? -/
def isOutOfRange : Error → Bool
  | .source (.heightOutOfRange _) => true
  | _ => false

end Error

end ChainIndex
