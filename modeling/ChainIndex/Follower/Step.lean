import ChainIndex.Indexer.Registry
import ChainIndex.Indexer.Blocks
import ChainIndex.Entity.SyncStatus

/-!
# One step of the follower

The follower keeps the records in step with the best chain of a source, one block at a
time. A step first consults the ledger: when it says that the last attempt did not end,
the block it names is undone before anything else. Then

* without any stored block the genesis block is applied;
* a block at the next height that follows on the tip is applied;
* one that does not follow means that the tip has been replaced, and the tip is undone;
* without a block at the next height the tip is compared with what the source has at
  its height, and undone if that is another block or none.

A chain that was replaced `k` blocks deep is so resolved by undoing `k` blocks, each by
a step of its own, and going forward from there.

The ledger is written right before and right after the hooks of a block. When a hook
fails the ledger says so; if even that cannot be written, the ledger still says that the
attempt did not end.

## Main definitions

* `SyncStep`: What a step did.
* `Follower`: The indexers of a follower.
* `Follower.step`: One step.
* `Follower.invalidate`: Undoes one block.
-/

namespace ChainIndex

/-- What a step did. -/
inductive SyncStep where
  /-- The genesis block was applied. -/
  | genesis (hash : String)
  /-- A block on the tip was applied. -/
  | indexed (height : UInt32) (hash : String)
  /-- The tip was undone. -/
  | invalidated (height : UInt32) (hash : String)
  /-- There was nothing to do. -/
  | upToDate
deriving DecidableEq

/-- Did the step do anything? -/
def SyncStep.didWork : SyncStep → Bool
  | .upToDate => false
  | _ => true

/-- The best-chain block at a height. -/
def blockAt (height : UInt32) : Program Block := do
  let hash ← Program.request (.blockHash height)
  Program.request (.block hash)

/-- A follower, by its indexers. -/
structure Follower where
  /-- Its indexers, the one of blocks last. -/
  registry : Registry

namespace Follower

/-- The follower with these indexers, to which it adds the one of blocks. -/
def ofRegistry (registry : Registry) : Follower :=
  ⟨registry.add .blocks⟩

/-- Runs the hooks of a block between two notes in the ledger. An error of a hook is
    noted too, if it can be, and is the result. -/
def recorded (block : Block) (before after : SyncPhase) (hooks : Program Unit) :
    Program Unit := do
  SyncStatus.write block.hash block.height before
  match ← hooks.attempt with
  | .ok () => SyncStatus.write block.hash block.height after
  | .error e => do
    -- Whether this note lands or not, the ledger does not say that the attempt ended.
    let _ ← (SyncStatus.write block.hash block.height .error).attempt
    throw e

/-- Applies a block. -/
def applyBlock (follower : Follower) (block : Block) : Program Unit :=
  recorded block .indexing .indexed (follower.registry.applyBlock block)

/-- Undoes a block. -/
def undoBlock (follower : Follower) (block : Block) : Program Unit :=
  recorded block .invalidating .invalidated (follower.registry.undoBlock block)

/-- Undoes the block `hash` at `height`. It does not matter whether the block was
    applied in full, in part or not at all. -/
def invalidate (follower : Follower) (hash : String) (height : UInt32) : Program Unit := do
  let block ← Program.request (.block hash)
  if block.height = height then follower.undoBlock block
  else throw (.consistency (.heightMismatch hash block.height height))

/-- Undoes the block of an attempt that did not end. -/
def cleanup (follower : Follower) : Program Unit := do
  match ← SyncStatus.read? with
  | none => return
  | some status =>
    if status.phase.isTerminal then return
    else follower.invalidate status.hash status.height

/-- Applies the genesis block. -/
def applyGenesis (follower : Follower) : Program SyncStep := do
  match ← (blockAt 0).attempt with
  | .error e => throw (.genesis (.failed e.message))
  | .ok genesis =>
    if genesis.height = 0 then
      follower.applyBlock genesis
      return .genesis genesis.hash
    else throw (.genesis (.wrongHeight genesis.height))

/-- Undoes the tip. -/
def undoTip (follower : Follower) (tip : BlockRecord) : Program SyncStep := do
  follower.invalidate tip.hash tip.height
  return .invalidated tip.height tip.hash

/-- Compares the tip with what the source has at its height. -/
def verifyTip (follower : Follower) (tip : BlockRecord) : Program SyncStep := do
  match ← (Program.request (.blockHash tip.height)).attempt with
  | .ok hash => if hash = tip.hash then return .upToDate else follower.undoTip tip
  -- The best chain may have become shorter than what is stored.
  | .error e => if e.isOutOfRange then follower.undoTip tip else throw e

/-- Goes on from the tip. -/
def advance (follower : Follower) (tip : BlockRecord) : Program SyncStep := do
  match ← (blockAt (tip.height + 1)).attempt with
  | .ok next =>
    -- A block of another branch says that the tip is not on the best chain.
    if next.follows tip.hash tip.height then
      follower.applyBlock next
      return .indexed next.height next.hash
    else follower.undoTip tip
  | .error e => if e.isOutOfRange then follower.verifyTip tip else throw e

/-- One step. -/
def step (follower : Follower) : Program SyncStep := do
  follower.cleanup
  match ← BlockRecord.tip? with
  | none => follower.applyGenesis
  | some tip => follower.advance tip

end Follower

end ChainIndex
