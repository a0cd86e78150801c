import ChainIndex.Chain.Source
import ChainIndex.Store.Keyed

/-!
# Worlds

What the calls of a program reach when nothing fails on purpose: a store, a chain
source in memory, and a clock that stands still. Only the store ever changes, and only
by a put or a delete.

## Main definitions

* `World`: A store, a source and a clock.
* `World.answer`: Answers a call.
-/

namespace ChainIndex

/-- A store of type `σ`, a source and a clock. -/
structure World (σ : Type) where
  /-- The store. -/
  store : σ
  /-- The source. -/
  source : MemorySource
  /-- What the clock says, in seconds. -/
  now : Int64

namespace World

variable {σ : Type} [KeyedStore σ]

/-- A world with an empty store, at the beginning of time. -/
def ofSource (source : MemorySource) : World σ :=
  ⟨KeyedStore.empty, source, 0⟩

/-- Answers a call. The source has one peer, and there is nobody to hand a hook to. -/
def answer : Program.Handler (World σ) := fun c world =>
  match c with
  | .get model key => (KeyedStore.get world.store model key, world)
  | .put model record =>
    (.ok (), { world with store := KeyedStore.put world.store model record })
  | .delete model key =>
    (.ok (), { world with store := KeyedStore.delete world.store model key })
  | .scan model scan => (KeyedStore.scan world.store model scan, world)
  | .extent model => (.ok (KeyedStore.extent world.store model), world)
  | .blockHash height => (world.source.blockHash height, world)
  | .block hash => (world.source.block hash, world)
  | .connectionCount => (.ok 1, world)
  | .chainInfo => (world.source.info, world)
  | .clock => (.ok world.now, world)
  | .hook _ _ _ _ => (.ok (), world)

end World

end ChainIndex
