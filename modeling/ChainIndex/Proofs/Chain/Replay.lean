import ChainIndex.Proofs.Chain.Positions
import ChainIndex.Proofs.Indexer.Dispatch
import ChainIndex.Proofs.Text.Keys
import ChainIndex.World
import Mathlib.Data.List.Induction

/-!
# Replaying a chain

What the records ought to be is told by replaying the chain: its blocks are indexed one
after another into an empty store. Everything that is proved about a follower compares its
store with such a replay.

A chain is a list of blocks each of which has its position as its height. `Chain.Clean`
gathers what is assumed of the blocks along it. Its blocks have hashes of their own. Its
transactions have ids of their own, without hyphens, for keys are taken apart at their last
hyphen, and none of them is the key of the native token. The position of a transaction fits
into the 32 bits in which it is kept.

## Main definitions

* `Transaction.carrying`, `Block.holding`: Small transactions and blocks.
* `Chain.Numbered`: Heights are positions.
* `Chain.txids`: The ids of all transactions.
* `Chain.Clean`: What is assumed of the blocks of a chain.
* `Chain.build`: The store that indexing a chain into an empty one leaves.

## Theorems

* `build_snoc`: A chain is indexed one block at a time.
* `Clean.of_snoc`: A chain is clean without its last block.
-/

namespace ChainIndex

/-- A transaction that carries an operation and is otherwise empty. -/
def Transaction.carrying (txid : String) (tag : OpTag) (payload : List (String × Json)) :
    Transaction :=
  { (default : Transaction) with txid, op := some ⟨tag, .object payload⟩ }

/-- A block that holds some transactions and is otherwise empty. -/
def Block.holding (hash previousHash : String) (height : UInt32)
    (transactions : List Transaction) : Block :=
  { (default : Block) with hash, previousHash, height, transactions }

namespace Chain

/-- Every block has its position as its height. -/
def Numbered (chain : List Block) : Prop :=
  ∀ (i : Nat) (block : Block), chain[i]? = some block → block.height.toNat = i

/-- The ids of all transactions of a chain. -/
def txids (chain : List Block) : List String :=
  chain.flatMap fun block => block.transactions.map Transaction.txid

/-- What is assumed of the blocks along a chain: heights that count up from zero, hashes and
    ids that are not shared, ids that keep composed keys apart, and no more transactions in a
    block than positions can count. -/
structure Clean (chain : List Block) : Prop where
  numbered : Numbered chain
  hashes : (chain.map Block.hash).Nodup
  distinct : (txids chain).Nodup
  dashFree : ∀ txid ∈ txids chain, Text.DashFree txid
  notNative : ∀ txid ∈ txids chain, txid ≠ Token.nativeId
  fits : ∀ block ∈ chain, block.transactions.length ≤ UInt32.size

theorem txids_snoc (chain : List Block) (block : Block) :
    txids (chain ++ [block]) = txids chain ++ block.transactions.map Transaction.txid := by
  simp [txids]

theorem mem_txids {chain : List Block} {block : Block} (h : block ∈ chain) {tx : Transaction}
    (htx : tx ∈ block.transactions) : tx.txid ∈ txids chain :=
  List.mem_flatMap.mpr ⟨block, h, List.mem_map_of_mem htx⟩

theorem Numbered.of_snoc {chain : List Block} {block : Block}
    (h : Numbered (chain ++ [block])) : Numbered chain := by
  intro i other hget
  refine h i other ?_
  rw [List.getElem?_append_left (List.getElem?_eq_some_iff.mp hget).1, hget]

/-- The block behind a chain has the number of blocks ahead of it as its height. -/
theorem Numbered.height_last {chain : List Block} {block : Block}
    (h : Numbered (chain ++ [block])) : block.height.toNat = chain.length :=
  h chain.length block (by simp)

/-- The height above a chain is the number of its blocks, as long as that is a height. -/
theorem Numbered.height_above {chain : List Block} {block : Block}
    (h : Numbered (chain ++ [block])) (hshort : (chain ++ [block]).length < UInt32.size) :
    (block.height + 1).toNat = (chain ++ [block]).length := by
  rw [List.length_append, List.length_singleton, UInt32.size] at hshort
  rw [UInt32.toNat_add, h.height_last, UInt32.toNat_one, List.length_append,
    List.length_singleton]
  exact Nat.mod_eq_of_lt hshort

theorem Numbered.height_lt {chain : List Block} (h : Numbered chain) {block : Block}
    (hmem : block ∈ chain) : block.height.toNat < chain.length := by
  rcases List.getElem?_of_mem hmem with ⟨i, hget⟩
  rw [h i block hget]
  exact (List.getElem?_eq_some_iff.mp hget).1

theorem numbered_of_map {chain : List Block}
    (h : (chain.map fun block => block.height.toNat) = List.range chain.length) :
    Numbered chain := by
  intro i block hget
  have hlt := (List.getElem?_eq_some_iff.mp hget).1
  have hheight := congrArg (fun heights => heights[i]?) h
  simp only [List.getElem?_map, hget, Option.map_some, List.getElem?_range hlt,
    Option.some.injEq] at hheight
  exact hheight

namespace Clean

variable {chain : List Block} {block : Block}

theorem of_snoc (h : Clean (chain ++ [block])) : Clean chain where
  numbered := h.numbered.of_snoc
  hashes := by
    have hashes := h.hashes
    rw [List.map_append] at hashes
    exact (List.nodup_append.mp hashes).1
  distinct := by
    have hdistinct := h.distinct
    rw [txids_snoc] at hdistinct
    exact (List.nodup_append.mp hdistinct).1
  dashFree txid hmem := h.dashFree txid (txids_snoc chain block ▸ List.mem_append_left _ hmem)
  notNative txid hmem := h.notNative txid (txids_snoc chain block ▸ List.mem_append_left _ hmem)
  fits other hmem := h.fits other (List.mem_append_left _ hmem)

/-- The last block by itself. -/
theorem regular (h : Clean (chain ++ [block])) : block.Regular where
  distinct := by
    have hdistinct := h.distinct
    rw [txids_snoc] at hdistinct
    exact (List.nodup_append.mp hdistinct).2.1
  fits := h.fits block (List.mem_concat_self)

/-- The transactions of the last block are none of those ahead. -/
theorem txid_not_mem (h : Clean (chain ++ [block])) {tx : Transaction}
    (htx : tx ∈ block.transactions) : tx.txid ∉ txids chain := by
  have hdistinct := h.distinct
  rw [txids_snoc] at hdistinct
  intro hmem
  exact (List.nodup_append.mp hdistinct).2.2 _ hmem _ (List.mem_map_of_mem htx) rfl

theorem dashFree_last (h : Clean (chain ++ [block])) {tx : Transaction}
    (htx : tx ∈ block.transactions) : Text.DashFree tx.txid :=
  h.dashFree _ (mem_txids (List.mem_concat_self) htx)

theorem hash_ne (h : Clean (chain ++ [block])) {other : Block} (hmem : other ∈ chain) :
    other.hash ≠ block.hash := by
  have hashes := h.hashes
  rw [List.map_append] at hashes
  exact (List.nodup_append.mp hashes).2.2 _ (List.mem_map_of_mem hmem) _ (by simp)

theorem height_ne (h : Clean (chain ++ [block])) {other : Block} (hmem : other ∈ chain) :
    other.height ≠ block.height := by
  intro heq
  have hlt := h.numbered.of_snoc.height_lt hmem
  have hlast := h.numbered.height_last
  rw [heq] at hlt
  omega

end Clean

/-- The store that indexing a chain into an empty one leaves, or the error that ended it. -/
def build (symbol : String) (chain : List Block) : Except Error MemoryStore :=
  match (chain.forM (Registry.full symbol).applyBlock).run World.answer
      (World.ofSource ⟨[], []⟩ : World MemoryStore) with
  | (.ok (), world) => .ok world.store
  | (.error e, _) => .error e

theorem build_of_run {symbol : String} {chain : List Block} {world : World MemoryStore}
    (h : (chain.forM (Registry.full symbol).applyBlock).run World.answer
      (World.ofSource ⟨[], []⟩ : World MemoryStore) = (.ok (), world)) :
    build symbol chain = .ok world.store := by
  unfold build
  rw [h]

theorem build_nil (symbol : String) : build symbol [] = .ok .empty := rfl

theorem forM_snoc {β : Type} (items : List β) (b : β) (f : β → Program PUnit) :
    (items ++ [b]).forM f = items.forM f >>= fun _ => f b := by
  induction items with
  | nil => exact Registry.forM_singleton b f
  | cons c rest ih =>
      change (f c >>= fun _ => (rest ++ [b]).forM f) = (f c >>= fun _ => rest.forM f) >>= _
      rw [ih, LawfulMonad.bind_assoc]

/-- A run changes neither the source nor the clock. -/
theorem run_world {α σ : Type} [KeyedStore σ] (program : Program α) (world : World σ) :
    (program.run World.answer world).2.source = world.source ∧
      (program.run World.answer world).2.now = world.now := by
  induction program generalizing world with
  | done result => exact ⟨rfl, rfl⟩
  | call c next ih =>
      have hc : (World.answer c world).2.source = world.source ∧
          (World.answer c world).2.now = world.now := by
        cases c <;> exact ⟨rfl, rfl⟩
      rcases ih (World.answer c world).1 (World.answer c world).2 with ⟨hsource, hnow⟩
      exact ⟨hsource.trans hc.1, hnow.trans hc.2⟩

/-- What a program leaves of a store in a world without any blocks. -/
theorem run_ofStore {α : Type} (program : Program α) (store : MemoryStore) :
    ∃ result behind, program.run World.answer ⟨store, ⟨[], []⟩, 0⟩
      = (result, ⟨behind, ⟨[], []⟩, 0⟩) := by
  rcases run_world program ⟨store, ⟨[], []⟩, 0⟩ with ⟨hsource, hnow⟩
  rcases hrun : program.run World.answer ⟨store, ⟨[], []⟩, 0⟩ with ⟨result, behind, source, now⟩
  rw [hrun] at hsource hnow
  simp only at hsource hnow
  exact ⟨result, behind, by rw [hsource, hnow]⟩

/-- A chain is indexed one block at a time. -/
theorem build_snoc (symbol : String) (chain : List Block) (block : Block)
    (store : MemoryStore) :
    build symbol (chain ++ [block]) = .ok store ↔
      ∃ before, build symbol chain = .ok before ∧
        ((Registry.full symbol).applyBlock block).run World.answer ⟨before, ⟨[], []⟩, 0⟩
          = (.ok (), ⟨store, ⟨[], []⟩, 0⟩) := by
  unfold build
  rw [forM_snoc]
  change (match (Program.bind (chain.forM (Registry.full symbol).applyBlock) fun _ =>
    (Registry.full symbol).applyBlock block).run World.answer ⟨MemoryStore.empty, ⟨[], []⟩, 0⟩ with
    | (.ok (), world) => Except.ok world.store
    | (.error e, _) => .error e) = .ok store ↔ _
  -- The last block is applied to what the blocks ahead of it have left.
  rw [Program.run_bind]
  rcases run_ofStore (chain.forM (Registry.full symbol).applyBlock) .empty with
    ⟨result, before, hbefore⟩
  rw [show (World.ofSource ⟨[], []⟩ : World MemoryStore) =
    ⟨.empty, ⟨[], []⟩, 0⟩ from rfl, hbefore]
  cases result with
  | error e => simp
  | ok u =>
      rcases run_ofStore ((Registry.full symbol).applyBlock block) before with
        ⟨result, behind, hbehind⟩
      simp only [hbehind, Except.ok.injEq, exists_eq_left']
      cases result with
      | error e => simp
      | ok u => simp

/-- A chain can be indexed as far as a longer one can. -/
theorem build_of_append {symbol : String} {chain rest : List Block} {store : MemoryStore}
    (h : build symbol (chain ++ rest) = .ok store) : ∃ before, build symbol chain = .ok before := by
  induction rest using List.reverseRecOn generalizing store with
  | nil => exact ⟨store, by simpa using h⟩
  | append_singleton rest block ih =>
      rw [← List.append_assoc] at h
      rcases (build_snoc symbol _ block store).mp h with ⟨before, hbefore, _⟩
      exact ih hbefore

end Chain

end ChainIndex
