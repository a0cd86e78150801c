import ChainIndex.Store.Memory
import ChainIndex.Store.Table

/-!
# Keyed sorted stores

What every store can do, whichever way it keeps its records. There are no transactions
over several keys; whoever needs several records to agree orders the writes so that a
block applied in part can still be undone.

## Main definitions

* `KeyedStore`: The operations of a store.
-/

namespace ChainIndex

/-- The operations of a store of type `σ`. -/
class KeyedStore (σ : Type) where
  /-- A store without records. -/
  empty : σ
  /-- The value under a key. -/
  get : σ → String → String → Except Error (Option Json)
  /-- Puts a record in place of one with the same key, entries included. -/
  put : σ → String → Record → σ
  /-- Deletes a record with its entries, if it is there. -/
  delete : σ → String → String → σ
  /-- The values that a scan finds. -/
  scan : σ → String → Scan → Except Error (List Json)
  /-- The number of records of a model. -/
  count : σ → String → Nat
  /-- The number of index entries of a model. -/
  extent : σ → String → Nat

instance : KeyedStore MemoryStore where
  empty := .empty
  get store model key := .ok (store.get model key)
  put store model record := store.put model record
  delete store model key := store.delete model key
  scan store model scan := .ok (store.scan model scan)
  count store model := store.count model
  extent store model := store.extent model

instance : KeyedStore TableStore where
  empty := .empty
  get store model key := store.get model key
  put store model record := store.put model record
  delete store model key := store.delete model key
  scan store model scan := store.scan model scan
  count store model := store.count model
  extent store model := store.extent model

end ChainIndex
