import ChainIndex.Rehearsal.Failure
import ChainIndex.Indexer.Basic
import ChainIndex.World

/-!
# Rigs

A world in which calls can be made to fail on purpose and what is written is noted. A
call that fails on purpose never reaches the world. A write is noted when it does,
also the deletion of a record that is not there.

A recorder of the rig sits at a seat, and hooks are handed to it by the name of the
seat, so two recorders may have the same name.

## Main definitions

* `Rig`: A world, plans of failures, recorders, and notes.
* `Rig.answer`: Answers a call.
-/

namespace ChainIndex

/-- A write that has reached a store. -/
inductive Write where
  /-- A record was put. -/
  | put (model key : String)
  /-- A record was deleted, if it was there. -/
  | delete (model key : String)
deriving DecidableEq

namespace Write

/-- The model and the key that were written to. -/
def target : Write → String × String
  | .put model key => (model, key)
  | .delete model key => (model, key)

/-- What is noted of a write. -/
def note : Write → String
  | .put model key => "put " ++ model ++ " " ++ key
  | .delete model key => "delete " ++ model ++ " " ++ key

end Write

/-- A call that writes, as the write it asks for. -/
def Call.write? : Call → Option Write
  | .put model record => some (.put model record.key)
  | .delete model key => some (.delete model key)
  | _ => none

/-- A world in which calls can be made to fail. -/
structure Rig (σ : Type) where
  /-- The world. -/
  world : World σ
  /-- The plans of failures, in the order in which they are asked. -/
  failures : List PlannedFailure
  /-- The recorders by seat. -/
  recorders : List (String × Recorder)
  /-- The hooks that recorders have noted, the latest first. -/
  hooks : List String
  /-- The writes that have reached the store, the latest first. -/
  writes : List Write

namespace Rig

variable {σ : Type} [KeyedStore σ]

/-- A rig in which nothing fails. -/
def ofWorld (world : World σ) (recorders : List (String × Recorder)) : Rig σ :=
  ⟨world, [], recorders, [], []⟩

/-- The indexer whose hooks are handed to a seat. -/
def seated (seat name : String) (ops : List OpTag) : Indexer where
  name := name
  ops := ops
  hook phase stage block := Program.request (.hook seat phase stage block)

/-- Puts a recorder at a seat, in place of the one that sits there. -/
def seat (rig : Rig σ) (seat : String) (recorder : Recorder) : Rig σ :=
  { rig with recorders := rig.recorders.map fun (other, sitting) =>
      if other == seat then (other, recorder) else (other, sitting) }

/-- Hands a hook to the recorder at a seat. Nothing happens at an empty one. -/
def hand (rig : Rig σ) (seat : String) (phase : Phase) (stage : Stage) (block : Block) :
    Except Error Unit × Rig σ :=
  match rig.recorders.lookup seat with
  | none => (.ok (), rig)
  | some recorder =>
    let (result, left) := recorder.visit phase stage block
    (result, { rig.seat seat left with hooks := recorder.note phase stage block :: rig.hooks })

/-- Answers a call that does not fail on purpose. -/
def reach : Program.Handler (Rig σ) := fun c rig =>
  match c with
  | .hook seat phase stage block => rig.hand seat phase stage block
  | c =>
    let (answer, world) := World.answer c rig.world
    (answer, { rig with world, writes := c.write?.toList ++ rig.writes })

/-- Answers a call, unless it fails on purpose. -/
def answer : Program.Handler (Rig σ) := fun c rig =>
  match c.kind? with
  | none => reach c rig
  | some kind =>
    let (failed, failures) := PlannedFailure.consult kind rig.failures
    let rig := { rig with failures }
    match failed with
    | some e => (.error e, rig)
    | none => reach c rig

/-- Plans one more failure, to be asked after the others. -/
def plan (rig : Rig σ) (failure : PlannedFailure) : Rig σ :=
  { rig with failures := rig.failures ++ [failure] }

/-- Arms the recorder at a seat with one more failure. -/
def arm (rig : Rig σ) (seat hook place : String) : Rig σ :=
  match rig.recorders.lookup seat with
  | some recorder => rig.seat seat (recorder.arm hook place)
  | none => rig

/-- Drops every plan and disarms every recorder. -/
def heal (rig : Rig σ) : Rig σ :=
  { rig with
    failures := []
    recorders := rig.recorders.map fun (seat, recorder) => (seat, { recorder with armed := [] }) }

/-- Forgets what was noted. -/
def clearNotes (rig : Rig σ) : Rig σ :=
  { rig with hooks := [], writes := [] }

/-- Replaces the best chain of the source. -/
def setChain (rig : Rig σ) (chain : List Block) : Rig σ :=
  { rig with world := { rig.world with source := rig.world.source.setChain chain } }

end Rig

end ChainIndex
