import ChainIndex.Config
import ChainIndex.Follower.Cycle
import ChainIndex.Indexer.Standard
import ChainIndex.Rehearsal.Rig

/-!
# Controls

What an operator asks a follower: to start, to stop, to run a cycle, or what it is doing.
A gate lets an operator ask while a cycle is under way. It sits among the indexers and
closes the first time that a block of some height is applied: the hook waits there until
the operator has asked everything, and goes on then. So what is asked falls inside of one
step, where the follower holds `indexing`.

## Main definitions

* `Control`, `Control.Reply`: What is asked, and what is replied.
* `Gate`: Where a cycle is held, and what is asked meanwhile.
* `Rehearsal`: A follower in a rig, with a gate.
* `Rehearsal.ask`: Asks something.
* `Rehearsal.gatedCycle`: Runs a cycle that is held at a gate.
* `Rehearsal.serve`: Runs cycles until the tip is some block.
-/

namespace ChainIndex

/-- What an operator asks a follower. -/
inductive Control where
  /-- To let cycles run. -/
  | start
  /-- To let no more cycles run, and to wait for the one under way. -/
  | stop
  /-- How its flags are set. -/
  | flags
  /-- To run a cycle. -/
  | cycle
  /-- What the tip is. -/
  | tip
  /-- What was last attempted. -/
  | status
deriving DecidableEq, Repr

namespace Control

/-- What is replied. -/
inductive Reply where
  /-- It is done. -/
  | done
  /-- The flags. -/
  | flags (flags : Flags)
  /-- How the cycle ended. -/
  | cycle (outcome : CycleOutcome)
  /-- The tip. -/
  | tip (tip : Option BlockRecord)
  /-- What was last attempted. -/
  | status (status : Option SyncStatus)
deriving DecidableEq

end Control

/-- Where a cycle is held. -/
structure Gate where
  /-- The height of the block at which it closes. -/
  height : UInt32
  /-- What is asked meanwhile. -/
  during : List Control
  /-- What was replied, once it has closed. -/
  replies : Option (List (Except Error Control.Reply))

namespace Gate

/-- Does the gate close at this hook? -/
def closesAt (gate : Gate) (phase : Phase) (stage : Stage) (block : Block) : Bool :=
  gate.replies.isNone && phase == .apply && stage == .blockStart && block.height == gate.height

end Gate

/-- A rig with a gate. -/
structure GatedRig (σ : Type) where
  /-- The rig. -/
  rig : Rig σ
  /-- The gate, if a cycle is to be held at one. -/
  gate : Option Gate

/-- A follower in a rig: its settings, its flags, the rig and the gate. -/
structure Rehearsal (σ : Type) where
  /-- The settings of the follower. -/
  config : Config
  /-- The flags, and everything else. -/
  state : Guarded (GatedRig σ)

namespace Rehearsal

variable {σ : Type} [KeyedStore σ]

/-- The seat of the recorder whose hooks can be made to fail, and its name. -/
def recorderSeat : String := "fail_once"

/-- The seat of the gate. -/
def gateSeat : String := "gate"

/-- How many cycles are run until the tip is as wished. -/
def serviceCycles : Nat := 1000

/-- A rehearsal over a source, before the follower is started. -/
def ofSource (config : Config) (source : MemorySource) : Rehearsal σ where
  config := config
  state :=
    { flags := .idle
      world :=
        { rig := .ofWorld (.ofSource source) [(recorderSeat, ⟨recorderSeat, []⟩)]
          gate := none } }

/-- The follower: the standard indexers, the recorder, the gate, and the one of blocks. -/
def follower (config : Config) : Follower :=
  .ofRegistry <| ((Registry.standard config.nativeTokenSymbol).add
    (Rig.seated recorderSeat recorderSeat OpTag.all)).add (Rig.seated gateSeat gateSeat [])

/-- The rig. -/
def rig (rehearsal : Rehearsal σ) : Rig σ :=
  rehearsal.state.world.rig

/-- Changes the rig. -/
def mapRig (rehearsal : Rehearsal σ) (f : Rig σ → Rig σ) : Rehearsal σ :=
  { rehearsal with state.world.rig := f rehearsal.state.world.rig }

/-- Answers a call when no gate closes. -/
def answerOpen : Program.Handler (Guarded (GatedRig σ)) := fun c state =>
  let (answer, rig) := Rig.answer c state.world.rig
  (answer, { state with world.rig := rig })

/-- Asks for one thing. `step` is a step of the follower. -/
def askWith (config : Config)
    (step : Guarded (GatedRig σ) → Except Error SyncStep × Guarded (GatedRig σ)) :
    Control → Guarded (GatedRig σ) → Except Error Control.Reply × Guarded (GatedRig σ)
  | .start, state => (.ok .done, ChainIndex.start state)
  | .stop, state =>
    let (result, state) := ChainIndex.stop config.stopTimeoutMs state
    (result.map fun _ => .done, state)
  | .flags, state => (.ok (.flags state.flags), state)
  | .cycle, state =>
    match runCycle step patience state with
    | some (result, state) => (result.map .cycle, state)
    | none => (.error (.other "the cycle does not end"), state)
  | .tip, state =>
    let (result, state) := BlockRecord.tip?.run answerOpen state
    (result.map .tip, state)
  | .status, state =>
    let (result, state) := SyncStatus.read?.run answerOpen state
    (result.map .status, state)

/-- Asks for one thing after another. -/
def askAll (config : Config)
    (step : Guarded (GatedRig σ) → Except Error SyncStep × Guarded (GatedRig σ)) :
    List Control → Guarded (GatedRig σ) →
      List (Except Error Control.Reply) × Guarded (GatedRig σ)
  | [], state => ([], state)
  | control :: rest, state =>
    let (reply, state) := askWith config step control state
    let (replies, state) := askAll config step rest state
    (reply :: replies, state)

/-- The step of a cycle that is asked for while another is under way. There is never one,
    as `indexing` is set. -/
def noStep (state : Guarded (GatedRig σ)) : Except Error SyncStep × Guarded (GatedRig σ) :=
  (.ok .upToDate, state)

/-- Answers a call. A hook that is handed to the gate is held there if the gate closes. -/
def answer (config : Config) : Program.Handler (Guarded (GatedRig σ)) := fun c state =>
  match c with
  | .hook seat phase stage block =>
    match state.world.gate with
    | some gate =>
      if seat == gateSeat && gate.closesAt phase stage block then
        -- The cycle holds the hook back until everything has been asked.
        let (replies, state) := askAll config noStep gate.during state
        (.ok (), { state with world.gate := some { gate with replies := some replies } })
      else answerOpen (.hook seat phase stage block) state
    | none => answerOpen (.hook seat phase stage block) state
  | c => answerOpen c state

/-- Runs a program. -/
def run {α : Type} (rehearsal : Rehearsal σ) (program : Program α) :
    Except Error α × Rehearsal σ :=
  let (result, state) := program.run answerOpen rehearsal.state
  (result, { rehearsal with state })

/-- Asks the follower for something. -/
def ask (rehearsal : Rehearsal σ) (control : Control) :
    Except Error Control.Reply × Rehearsal σ :=
  let step := (follower rehearsal.config).step.run (answer rehearsal.config)
  let (reply, state) := askWith rehearsal.config step control rehearsal.state
  (reply, { rehearsal with state })

/-- Runs a cycle that is held at a gate. With what was replied there, if it got there. -/
def gatedCycle (rehearsal : Rehearsal σ) (height : UInt32) (during : List Control) :
    (Option (List (Except Error Control.Reply)) × Except Error Control.Reply) × Rehearsal σ :=
  let gate : Gate := ⟨height, during, none⟩
  let (reply, held) := { rehearsal with state.world.gate := some gate }.ask .cycle
  ((held.state.world.gate.bind Gate.replies, reply),
    { held with state.world.gate := none })

/-- Is the tip the block with this hash? -/
def tipIs (rehearsal : Rehearsal σ) (hash : String) : Bool × Rehearsal σ :=
  match rehearsal.ask .tip with
  | (.ok (.tip (some tip)), rehearsal) => (tip.hash == hash, rehearsal)
  | (_, rehearsal) => (false, rehearsal)

/-- Runs cycles until the tip is the block with this hash, at most `cycles` of them. An
    error of a cycle is left to the next one. -/
def followUntil (hash : String) : Nat → Rehearsal σ → Bool × Rehearsal σ
  | 0, rehearsal => rehearsal.tipIs hash
  | cycles + 1, rehearsal =>
    match rehearsal.tipIs hash with
    | (true, rehearsal) => (true, rehearsal)
    | (false, rehearsal) => followUntil hash cycles (rehearsal.ask .cycle).2

/-- Starts the follower, runs cycles until the tip is the block with this hash, and stops
    it. Was the tip reached? -/
def serve (rehearsal : Rehearsal σ) (hash : String) : Except Error Bool × Rehearsal σ :=
  let (reached, rehearsal) := followUntil hash serviceCycles (rehearsal.ask .start).2
  let (stopped, rehearsal) := rehearsal.ask .stop
  (stopped.map fun _ => reached, rehearsal)

/-- Puts a new follower in place of the old one, over the same rig. -/
def restart (rehearsal : Rehearsal σ) : Rehearsal σ :=
  { rehearsal with state.flags := .idle }

end Rehearsal

end ChainIndex
