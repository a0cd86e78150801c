import ChainIndex.Program.Basic

/-!
# Failures on purpose

Calls that are made to fail, and indexers whose hooks are. A planned failure is about
one kind of call. It lets some calls of its kind pass and then fails some more. The
plans for a kind are asked in order, and the first one that fails the call leaves those
behind it as they are, so two plans may be set up to fail one after the other.

A recorder is an indexer that does nothing but note its hooks. It can be armed to fail
at one of them, and each of its armed failures is used up by the hook that it fails.

## Main definitions

* `CallKind`: The kinds of call that can be made to fail.
* `PlannedFailure`: Which calls fail, and how.
* `PlannedFailure.consult`: Does any plan fail the next call of a kind?
* `Recorder`: An indexer that notes its hooks.
-/

namespace ChainIndex

/-- The kinds of call that can be made to fail. -/
inductive CallKind where
  /-- Loading a record. -/
  | get
  /-- Putting a record. -/
  | put
  /-- Deleting a record. -/
  | delete
  /-- Scanning an index. -/
  | scan
  /-- Asking for the hash at a height. -/
  | blockHash
  /-- Asking for a block. -/
  | block
  /-- Asking for the number of peers. -/
  | connectionCount
  /-- Asking about the best chain. -/
  | chainInfo
deriving DecidableEq, Repr

/-- The kind of a call. Some calls cannot be made to fail. -/
def Call.kind? : Call → Option CallKind
  | .get _ _ => some .get
  | .put _ _ => some .put
  | .delete _ _ => some .delete
  | .scan _ _ => some .scan
  | .blockHash _ => some .blockHash
  | .block _ => some .block
  | .connectionCount => some .connectionCount
  | .chainInfo => some .chainInfo
  | .extent _ => none
  | .clock => none
  | .hook _ _ _ _ => none

/-- Which calls fail, and how. -/
structure PlannedFailure where
  /-- The kind of the calls. -/
  kind : CallKind
  /-- How many of them pass first. -/
  after : Nat
  /-- How many of them fail then. -/
  count : Nat
  /-- What they fail with. -/
  error : Error
deriving DecidableEq

namespace PlannedFailure

/-- Does any plan fail the next call of a kind? With what is left of the plans. -/
def consult (kind : CallKind) : List PlannedFailure → Option Error × List PlannedFailure
  | [] => (none, [])
  | plan :: rest =>
    let onward (plan : PlannedFailure) : Option Error × List PlannedFailure :=
      let (error, rest) := consult kind rest
      (error, plan :: rest)
    -- A plan that lets the call pass has it asked of the plans behind, too.
    if plan.kind ≠ kind then onward plan
    else if 0 < plan.after then onward { plan with after := plan.after - 1 }
    else if 0 < plan.count then (some plan.error, { plan with count := plan.count - 1 } :: rest)
    else onward plan

/-- The error of a store call that fails on purpose. -/
def storeError (method : String) : Error :=
  .storage ("injected " ++ method ++ " failure")

end PlannedFailure

/-- An indexer that notes its hooks, and the failures it is armed with: the name of a
    hook, and where it acts. -/
structure Recorder where
  /-- Its name. -/
  name : String
  /-- The failures. -/
  armed : List (String × String)
deriving DecidableEq

namespace Recorder

/-- What is noted of a hook. -/
def note (recorder : Recorder) (phase : Phase) (stage : Stage) (block : Block) : String :=
  recorder.name ++ " " ++ hookName phase stage ++ " " ++ stage.place block

/-- Arms one more failure. -/
def arm (recorder : Recorder) (hook place : String) : Recorder :=
  { recorder with armed := recorder.armed ++ [(hook, place)] }

/-- A hook of the recorder. -/
def visit (recorder : Recorder) (phase : Phase) (stage : Stage) (block : Block) :
    Except Error Unit × Recorder :=
  let hook := hookName phase stage
  let place := stage.place block
  if recorder.armed.contains (hook, place) then
    (.error (.handler recorder.name ("injected " ++ hook ++ " failure at " ++ place)),
      { recorder with armed := recorder.armed.erase (hook, place) })
  else (.ok (), recorder)

end Recorder

end ChainIndex
