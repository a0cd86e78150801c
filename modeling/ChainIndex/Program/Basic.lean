import ChainIndex.Chain.Hook
import ChainIndex.Error
import ChainIndex.Store.Query

/-!
# Programs

What an indexer or the follower does, as a tree of calls to the outside world. A
program is either done, with a result or an error, or it makes one call and goes on
with the answer. Every call may fail, so a program always goes on with a result or an
error, and it is the program that says whether an error ends it.

Since a program is data, the same hook can be run against any store, be made to fail
at any of its calls, be cut off between any two of them, or have its writes listed,
and all of that is about the one definition of the hook. Nothing outside a program is
changed but by its calls.

## Main definitions

* `Call`: The calls, and `Call.Answer`, what each is answered with.
* `Program`: A tree of calls.
* `Program.request`: The program that makes one call.
* `Program.attempt`: A program that keeps an error as a result.
* `Program.run`: A program run by something that answers its calls.

## Theorems

* `run_bind`: Running one program after another is running the two in turn.
* `run_attempt`: Keeping an error changes nothing of what is done.
-/

namespace ChainIndex

/-- What a chain source says about its best chain. -/
structure ChainInfo where
  /-- The name of the chain. -/
  chain : String
  /-- The height of the best block. -/
  blocks : UInt32
  /-- The hash of the best block. -/
  bestBlockHash : String
deriving DecidableEq

/-- A call to the outside world. -/
inductive Call where
  /-- Loads a record. -/
  | get (model key : String)
  /-- Puts a record in place of one with the same key. -/
  | put (model : String) (record : Record)
  /-- Deletes a record, if it is there. -/
  | delete (model key : String)
  /-- Scans one partition of an index. -/
  | scan (model : String) (scan : Scan)
  /-- Asks how many index entries a model has, to bound a walk over one of them. -/
  | extent (model : String)
  /-- Asks for the hash of the best chain at a height. -/
  | blockHash (height : UInt32)
  /-- Asks for a block by hash. -/
  | block (hash : String)
  /-- Asks how many peers the source has. -/
  | connectionCount
  /-- Asks about the best chain. -/
  | chainInfo
  /-- Reads the clock, in seconds. -/
  | clock
  /-- Hands a hook to an indexer outside this library. -/
  | hook (indexer : String) (phase : Phase) (stage : Stage) (block : Block)
deriving DecidableEq

/-- What a call is answered with, unless it fails. -/
@[reducible]
def Call.Answer : Call → Type
  | .get _ _ => Option Json
  | .put _ _ => Unit
  | .delete _ _ => Unit
  | .scan _ _ => List Json
  | .extent _ => Nat
  | .blockHash _ => String
  | .block _ => Block
  | .connectionCount => UInt32
  | .chainInfo => ChainInfo
  | .clock => Int64
  | .hook _ _ _ _ => Unit

/-- A tree of calls with results at its leaves. -/
inductive Program (α : Type) where
  /-- Nothing more is called. -/
  | done (result : Except Error α)
  /-- One call, and what follows on its answer. -/
  | call (c : Call) (next : Except Error c.Answer → Program α)

namespace Program

variable {α β γ σ : Type}

/-- One program and then, unless it failed, another. -/
protected def bind : Program α → (α → Program β) → Program β
  | .done (.ok a), f => f a
  | .done (.error e), _ => .done (.error e)
  | .call c next, f => .call c fun answer => (next answer).bind f

/-- A program that keeps an error as a result. -/
def attempt : Program α → Program (Except Error α)
  | .done result => .done (.ok result)
  | .call c next => .call c fun answer => (next answer).attempt

/-- The program that makes one call. -/
def request (c : Call) : Program c.Answer :=
  .call c .done

/-- The program that is done with a result or an error. -/
def ofExcept (result : Except Error α) : Program α :=
  .done result

instance : Monad Program where
  pure a := .done (.ok a)
  bind := Program.bind

instance : MonadExceptOf Error Program where
  throw e := .done (.error e)
  tryCatch program handle := program.attempt.bind fun
    | .ok a => .done (.ok a)
    | .error e => handle e

theorem bind_done_error (e : Error) (f : α → Program β) :
    (Program.done (.error e)).bind f = .done (.error e) := rfl

theorem bind_call (c : Call) (next : Except Error c.Answer → Program α) (f : α → Program β) :
    (Program.call c next).bind f = .call c fun answer => (next answer).bind f := rfl

theorem bind_pure (program : Program α) : program.bind (fun a => .done (.ok a)) = program := by
  induction program with
  | done result => cases result <;> rfl
  | call c next ih =>
    rw [bind_call]
    congr 1
    exact funext ih

theorem bind_assoc (program : Program α) (f : α → Program β) (g : β → Program γ) :
    (program.bind f).bind g = program.bind fun a => (f a).bind g := by
  induction program with
  | done result => cases result <;> rfl
  | call c next ih =>
    rw [bind_call, bind_call, bind_call]
    congr 1
    exact funext ih

instance : LawfulMonad Program :=
  LawfulMonad.mk' Program
    (fun program => bind_pure program)
    (fun _ _ => rfl)
    (fun program f g => bind_assoc program f g)

/-! ## Running -/

/-- Answers calls, and what becomes of the world at each of them. -/
abbrev Handler (σ : Type) := (c : Call) → σ → Except Error c.Answer × σ

/-- Runs a program: its calls are answered one after another. -/
def run (handle : Handler σ) : Program α → σ → Except Error α × σ
  | .done result, world => (result, world)
  | .call c next, world =>
    let (answer, world) := handle c world
    (next answer).run handle world

theorem run_bind (handle : Handler σ) (program : Program α) (f : α → Program β) (world : σ) :
    (program.bind f).run handle world =
      match program.run handle world with
      | (.ok a, world) => (f a).run handle world
      | (.error e, world) => (.error e, world) := by
  induction program generalizing world with
  | done result => cases result <;> rfl
  | call c next ih => exact ih _ _

theorem run_attempt (handle : Handler σ) (program : Program α) (world : σ) :
    program.attempt.run handle world =
      (.ok (program.run handle world).1, (program.run handle world).2) := by
  induction program generalizing world with
  | done result => rfl
  | call c next ih => exact ih _ _

end Program

end ChainIndex
