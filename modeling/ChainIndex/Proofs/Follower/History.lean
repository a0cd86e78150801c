import ChainIndex.Proofs.Follower.Conduct
import ChainIndex.Proofs.Program.Points
import Mathlib.Logic.Relation

/-!
# The history of a follower

A follower starts over an empty store and makes one call after another. At any point it may be
stopped and started again, and then it begins a step anew over the store that is left. `Turn`
is one such move, and `Turns` any number of them. In lawless surroundings any call may fail and
the source may be any one at every call; all that is known of it is that a block it has under a
hash has that hash.

Every store that a follower may be met in, in whatever surroundings, is legible.

## Main definitions

* `Surroundings.lawless`: Anything may happen.
* `Work`: What is left of a step, and the store.
* `Turn`, `Turns`: One move of a follower, and any number of them.
* `Met`: A store that a follower may be met in.

## Theorems

* `Turns.begun`: Every point of a history is a point of a step.
* `Met.keeps`: What every step keeps holds of every store that is met.
* `Met.legible`: Every store that is met is legible.
-/

namespace ChainIndex

open Entity Program MemoryStore

/-- Any call may fail, and the source is at every call any one. -/
def Surroundings.lawless : Surroundings := ⟨True, fun _ => True⟩

/-- Where a follower stands: what is left of the step that it is about, and its store. -/
structure Work where
  /-- What is left of the step. -/
  left : Program SyncStep
  /-- The store. -/
  store : MemoryStore

/-- A follower at the beginning of its history. -/
def Work.start (follower : Follower) : Work := ⟨follower.step, .empty⟩

/-- One move of a follower: its next call is answered, or a step is begun. That is so when the
    last one has ended, or when the follower has been stopped in the midst of it and started
    again. -/
inductive Turn (env : Surroundings) (follower : Follower) : Work → Work → Prop where
  | call {c : Call} {next : Except Error c.Answer → Program SyncStep}
    {store behind : MemoryStore} {answer : Except Error c.Answer}
    (hanswer : env.Answers c store answer behind) :
    Turn env follower ⟨.call c next, store⟩ ⟨next answer, behind⟩
  | begin (left : Program SyncStep) (store : MemoryStore) :
    Turn env follower ⟨left, store⟩ ⟨follower.step, store⟩

/-- Any number of moves. -/
abbrev Turns (env : Surroundings) (follower : Follower) : Work → Work → Prop :=
  Relation.ReflTransGen (Turn env follower)

/-- A follower may be met with this store. -/
def Met (env : Surroundings) (follower : Follower) (store : MemoryStore) : Prop :=
  ∃ left, Turns env follower (.start follower) ⟨left, store⟩

variable {env : Surroundings} {follower : Follower} {store last : MemoryStore}

/-- The run of a program is made of moves. -/
theorem Program.Reaches.turns {program rest : Program SyncStep}
    (h : Reaches env program store rest last) :
    Turns env follower ⟨program, store⟩ ⟨rest, last⟩ := by
  induction h with
  | here => exact .refl
  | call hanswer _ ih => exact .head (.call hanswer) ih

/-- Every point of a history is a point of a step that was begun before. -/
theorem Turns.begun {work : Work} (h : Turns env follower (.start follower) work) :
    ∃ store, Turns env follower (.start follower) ⟨follower.step, store⟩ ∧
      Reaches env follower.step store work.left work.store := by
  induction h with
  | refl => exact ⟨.empty, .refl, .here _ _⟩
  | tail hturns hturn ih =>
      rcases ih with ⟨store, hstore, hreaches⟩
      cases hturn with
      | call hanswer => exact ⟨store, hstore, hreaches.answer hanswer⟩
      | begin left store' => exact ⟨store', .tail hturns (.begin left store'), .here _ _⟩

theorem Met.empty : Met env follower .empty := ⟨_, .refl⟩

/-- A store at any point of a step from one that is met is met. -/
theorem Met.step {rest : Program SyncStep} (h : Met env follower store)
    (hreaches : Reaches env follower.step store rest last) : Met env follower last := by
  rcases h with ⟨left, hturns⟩
  exact ⟨rest, (hturns.tail (.begin left store)).trans hreaches.turns⟩

/-- What every step keeps at every point holds of every store that is met. -/
theorem Met.keeps {mid : MemoryStore → Prop} (h : Met env follower store) (hempty : mid .empty)
    (hstep : ∀ store, mid store → Always env mid (fun _ _ => True) follower.step store) :
    mid store := by
  rcases h with ⟨left, hturns⟩
  -- The induction is on the moves, over every point of a step that has been begun.
  suffices hall : ∀ work, Turns env follower (.start follower) work →
      Always env mid (fun _ _ => True) work.left work.store from (hall _ hturns).here
  intro work hwork
  induction hwork with
  | refl => exact hstep _ hempty
  | tail _ hturn ih =>
      cases hturn with
      | call hanswer => exact ih.2 _ _ hanswer
      | begin left store' => exact hstep _ ih.here

/-- Every store that a follower may be met with is legible. -/
theorem Met.legible {symbol : String} (h : Met env (.standard symbol) store) : store.Legible :=
  h.keeps legible_empty fun _ hstore =>
    ((orderly_step hstore).legible hstore).mono fun _ _ _ _ => trivial

end ChainIndex
