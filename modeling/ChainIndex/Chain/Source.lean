import ChainIndex.Program.Basic

/-!
# A chain source in memory

A source that serves a given best chain, the position of a block being the height it is
asked for by. It also remembers every block it has ever held, so a block that has been
replaced is still served by hash, the way a node keeps stale blocks. Of several blocks
with one hash it serves the one it was given last.

## Main definitions

* `MemorySource`: The best chain and all blocks seen.
* `MemorySource.setChain`: Replaces the best chain.
* `MemorySource.blockHash`, `block`, `info`: What it answers.
-/

namespace ChainIndex

/-- A best chain, and all blocks seen. -/
structure MemorySource where
  /-- The best chain, from its first block. -/
  best : List Block
  /-- Every block it has held, the latest first. -/
  seen : List Block

namespace MemorySource

/-- Replaces the best chain. -/
def setChain (source : MemorySource) (chain : List Block) : MemorySource :=
  ⟨chain, chain.reverse ++ source.seen⟩

/-- A source that serves `chain`. -/
def ofChain (chain : List Block) : MemorySource :=
  setChain ⟨[], []⟩ chain

/-- The hash of the best chain at a height. -/
def blockHash (source : MemorySource) (height : UInt32) : Except Error String :=
  match source.best[height.toNat]? with
  | some block => .ok block.hash
  | none => .error (.source (.heightOutOfRange height))

/-- The block with a hash, on the best chain or stale. -/
def block (source : MemorySource) (hash : String) : Except Error Block :=
  match source.seen.find? fun block => block.hash == hash with
  | some block => .ok block
  | none => .error (.source (.blockNotFound hash))

/-- What it says about its best chain. -/
def info (source : MemorySource) : Except Error ChainInfo :=
  match source.best.getLast? with
  | some tip => .ok ⟨"memory", tip.height, tip.hash⟩
  | none => .error (.source (.rpc "empty chain"))

end MemorySource

end ChainIndex
