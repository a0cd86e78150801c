import ChainIndex.Proofs.Chain.Replay
import ChainIndex.Proofs.Indexer.Reverts

/-!
# Stores that were rolled forward and back

Between two forks a chain grows at its tip, and at a fork it is taken down from there. So a
store that is used is one that blocks were applied to and undone from, in any order that the
chain allows: `Rolled` is the least relation of chains and stores that is closed under both.

What such a store holds of some models is the same as if nothing had ever been undone, as
long as undoing takes back what applying has done. That is an induction with a stack: each
block of the chain remembers what the store held below it, and undoing the tip uncovers that
again. The stack is `Stacked`, and what it comes to is `Rolled.holds`: a property of chains and
stores that the next block establishes from the chain below holds of every store that was
rolled forward and back.

## Main definitions

* `Chain.Tidy`: What is assumed of the transactions of a chain.
* `Rolled`: A store that blocks were applied to and undone from.
* `Stacked`: A store with what it held below each block.

## Theorems

* `Tidy.of_snoc`, `Tidy.dashFree_last`, `Tidy.txid_not_mem`: The last block of a tidy chain.
* `Rolled.holds`: What the next block establishes holds however the store came about.
-/

namespace ChainIndex

open Program MemoryStore

namespace Chain

/-- What is assumed of the transactions of a chain: heights that count up from zero, and ids
    that are not shared and hold no hyphen. -/
structure Tidy (chain : List Block) : Prop where
  numbered : Numbered chain
  distinct : (txids chain).Nodup
  dashFree : ∀ txid ∈ txids chain, Text.DashFree txid

namespace Tidy

variable {chain : List Block} {block : Block}

theorem of_snoc (h : Tidy (chain ++ [block])) : Tidy chain where
  numbered := h.numbered.of_snoc
  distinct := by
    have hdistinct := h.distinct
    rw [txids_snoc] at hdistinct
    exact (List.nodup_append.mp hdistinct).1
  dashFree txid hmem := h.dashFree txid (txids_snoc chain block ▸ List.mem_append_left _ hmem)

/-- No two transactions of the last block share an id. -/
theorem distinct_last (h : Tidy (chain ++ [block])) :
    (block.transactions.map Transaction.txid).Nodup := by
  have hdistinct := h.distinct
  rw [txids_snoc] at hdistinct
  exact (List.nodup_append.mp hdistinct).2.1

theorem dashFree_last (h : Tidy (chain ++ [block])) {tx : Transaction}
    (htx : tx ∈ block.transactions) : Text.DashFree tx.txid :=
  h.dashFree _ (mem_txids List.mem_concat_self htx)

/-- The transactions of the last block are none of those ahead. -/
theorem txid_not_mem (h : Tidy (chain ++ [block])) {tx : Transaction}
    (htx : tx ∈ block.transactions) : tx.txid ∉ txids chain := by
  have hdistinct := h.distinct
  rw [txids_snoc] at hdistinct
  intro hmem
  exact (List.nodup_append.mp hdistinct).2.2 _ hmem _ (List.mem_map_of_mem htx) rfl

end Tidy

end Chain

/-- A store that was rolled forward and back along chains that `admits` allows: blocks were
    applied to it one after another, each behind the chain as it then was, and blocks at the
    tip were undone. All of them without an error. -/
inductive Rolled (symbol : String) (admits : List Block → Prop) :
    List Block → MemoryStore → Prop
  /-- A store without records. -/
  | start : Rolled symbol admits [] .empty
  /-- The next block is applied. -/
  | forward {chain : List Block} {block : Block} {before after : MemoryStore} :
      Rolled symbol admits chain before → admits (chain ++ [block]) →
      ((Registry.standard symbol).applyBlock block).run World.answer ⟨before, ⟨[], []⟩, 0⟩
        = (.ok (), ⟨after, ⟨[], []⟩, 0⟩) →
      Rolled symbol admits (chain ++ [block]) after
  /-- The block at the tip is undone. -/
  | back {chain : List Block} {block : Block} {before after : MemoryStore} :
      Rolled symbol admits (chain ++ [block]) before →
      ((Registry.standard symbol).undoBlock block).run World.answer ⟨before, ⟨[], []⟩, 0⟩
        = (.ok (), ⟨after, ⟨[], []⟩, 0⟩) →
      Rolled symbol admits chain after

/-- What a program leaves of a store, whatever it comes to. -/
def Program.leaves (program : Program Unit) (t : MemoryStore) : MemoryStore :=
  (program.run World.answer (⟨t, ⟨[], []⟩, 0⟩ : World MemoryStore)).2.store

/-- A program that comes to a result leaves the world as it was but for the store. -/
theorem Program.run_of_ok {program : Program Unit} {t : MemoryStore}
    (h : (program.run World.answer (⟨t, ⟨[], []⟩, 0⟩ : World MemoryStore)).1 = .ok ()) :
    program.run World.answer ⟨t, ⟨[], []⟩, 0⟩ = (.ok (), ⟨program.leaves t, ⟨[], []⟩, 0⟩) := by
  rcases Chain.run_ofStore program t with ⟨result, behind, hrun⟩
  rw [Program.leaves, hrun]
  rw [hrun] at h
  rw [show result = .ok () from h]

/-- A store with what it held below each block: there `P` holds as well, and undoing the block
    gives it back as far as the models go. -/
inductive Stacked (symbol : String) (models : List String)
    (P : List Block → MemoryStore → Prop) : List Block → MemoryStore → Prop
  /-- Below the first block. -/
  | bottom {t : MemoryStore} : P [] t → Stacked symbol models P [] t
  /-- One more block. -/
  | layer {chain : List Block} {block : Block} {below t : MemoryStore} :
      Stacked symbol models P chain below → P (chain ++ [block]) t →
      Reverts models ((Registry.standard symbol).undoBlock block) t below →
      Stacked symbol models P (chain ++ [block]) t

section

variable {symbol : String} {models : List String} {P : List Block → MemoryStore → Prop}
variable {admits : List Block → Prop} {chain : List Block} {t after : MemoryStore}

theorem Stacked.holds (h : Stacked symbol models P chain t) : P chain t := by
  cases h with
  | bottom hp => exact hp
  | layer _ hp _ => exact hp

/-- What a block stands on. -/
theorem Stacked.beneath {block : Block} (h : Stacked symbol models P (chain ++ [block]) t) :
    ∃ below, Stacked symbol models P chain below ∧
      Reverts models ((Registry.standard symbol).undoBlock block) t below := by
  generalize hwhole : chain ++ [block] = whole at h
  cases h with
  | bottom _ => simp at hwhole
  | layer hbelow _ hreverts =>
      rcases List.append_inj' hwhole rfl with ⟨rfl, hblock⟩
      rw [List.singleton_inj] at hblock
      exact ⟨_, hbelow, hblock ▸ hreverts⟩

/-- What the next block establishes holds however the store came about. -/
theorem Rolled.holds (hstart : P [] .empty)
    (hcongr : ∀ {chain before after}, P chain before → after.WF → after.Agree models before →
      P chain after)
    (happly : ∀ {chain block before}, admits (chain ++ [block]) → before.WF → P chain before →
      Runs MemoryStore.WF True
        (fun _ after => P (chain ++ [block]) after ∧
          Reverts models ((Registry.standard symbol).undoBlock block) after before)
        ((Registry.standard symbol).applyBlock block) before)
    (h : Rolled symbol admits chain t) : t.WF ∧ P chain t := by
  -- To undo a block takes more than `P`: what the store held below the block.
  suffices hall : t.WF ∧ Stacked symbol models P chain t from ⟨hall.1, hall.2.holds⟩
  induction h with
  | start => exact ⟨wf_empty, .bottom hstart⟩
  | forward _ hadmits hrun ih =>
      rcases (happly hadmits ih.1 ih.2.holds).post_of_run hrun with ⟨hwf, hp, hreverts⟩
      exact ⟨hwf, .layer ih.2 hp hreverts⟩
  | back _ hrun ih =>
      rcases ih.2.beneath with ⟨below, hbelow, hreverts⟩
      rcases (hreverts _ ih.1 (.refl models _)).post_of_run hrun with ⟨hwf, hagree⟩
      -- What lies below the block is uncovered, as far as the models go.
      refine ⟨hwf, ?_⟩
      cases hbelow with
      | bottom hp => exact .bottom (hcongr hp hwf hagree)
      | layer hlower hp hunder => exact .layer hlower (hcongr hp hwf hagree) (hunder.congr hagree)

end

end ChainIndex
