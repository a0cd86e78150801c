import ChainIndex.Follower.Step

/-!
# Cycles

A cycle repeats steps until one has nothing to do. Two flags guard it: `running` is set
by a start and cleared by a stop, and `indexing` is held by the one cycle under way. A
call for a cycle that finds another under way returns at once.

Several calls may be under way at a time, so a cycle is a machine that stands at a point
between two atomic actions: reading `running`, testing and setting `indexing`, one step,
clearing `indexing`. `running` is read again before every step, so a stop takes effect
between two blocks and never inside of one. `indexing` is cleared however the cycle
ends.

A cycle need not end by itself. Its machine is run for a number of actions, and an
answer is only given when it has come to its end by then.

## Main definitions

* `Flags`: The two flags.
* `CyclePoint`: Where a cycle stands, and `CyclePoint.advance`, its next action.
* `runCycle`: A cycle run by itself.
* `StopPoint`: Where a stop stands, and `StopPoint.advance`, its next action.
* `start`, `stop`: A start, and a stop run by itself.
-/

namespace ChainIndex

/-- The flags that guard cycles. -/
structure Flags where
  /-- May cycles go on? -/
  running : Bool
  /-- Is one under way? -/
  indexing : Bool
deriving DecidableEq, Repr

/-- The flags of a follower that has not been started. -/
def Flags.idle : Flags := ⟨false, false⟩

/-- A world together with the flags of the follower in it. -/
structure Guarded (σ : Type) where
  /-- The flags. -/
  flags : Flags
  /-- Everything else. -/
  world : σ

/-- How a call for a cycle ended. -/
inductive CycleOutcome where
  /-- Cycles may not run, or one is under way. -/
  | skipped
  /-- The cycle took this many steps that did something. -/
  | completed (steps : Nat)
deriving DecidableEq

/-- Where a cycle stands. -/
inductive CyclePoint where
  /-- About to read `running` for the first time. -/
  | entering
  /-- About to test and set `indexing`. -/
  | claiming
  /-- About to read `running`, after some steps. -/
  | checking (steps : Nat)
  /-- About to take a step, after some steps. -/
  | stepping (steps : Nat)
  /-- About to clear `indexing`, with a result. -/
  | releasing (result : Except Error CycleOutcome)
  /-- At its end, with a result. -/
  | finished (result : Except Error CycleOutcome)

namespace CyclePoint

variable {σ : Type}

/-- The next action of a cycle. `step` is one step of the follower. -/
def advance (step : Guarded σ → Except Error SyncStep × Guarded σ) (state : Guarded σ) :
    CyclePoint → CyclePoint × Guarded σ
  | .entering =>
    if state.flags.running then (.claiming, state) else (.finished (.ok .skipped), state)
  | .claiming =>
    if state.flags.indexing then (.finished (.ok .skipped), state)
    else (.checking 0, { state with flags.indexing := true })
  | .checking steps =>
    if state.flags.running then (.stepping steps, state)
    else (.releasing (.ok (.completed steps)), state)
  | .stepping steps =>
    match step state with
    | (.ok outcome, state) =>
      -- A step that found nothing to do is not counted.
      if outcome.didWork then (.checking (steps + 1), state)
      else (.releasing (.ok (.completed steps)), state)
    | (.error e, state) => (.releasing (.error e), state)
  | .releasing result => (.finished result, { state with flags.indexing := false })
  | .finished result => (.finished result, state)

/-- Runs a cycle to its end, if it comes to it within `actions` more actions. -/
def run (step : Guarded σ → Except Error SyncStep × Guarded σ) :
    Nat → CyclePoint → Guarded σ → Option (Except Error CycleOutcome × Guarded σ)
  | _, .finished result, state => some (result, state)
  | 0, _, _ => none
  | actions + 1, point, state =>
    let (point, state) := advance step state point
    run step actions point state

end CyclePoint

/-- How many actions a cycle is given where its result is needed. -/
def patience : Nat := 1000000000

/-- A cycle run by itself, if it ends within `actions` actions. -/
def runCycle {σ : Type} (step : Guarded σ → Except Error SyncStep × Guarded σ) (actions : Nat)
    (state : Guarded σ) : Option (Except Error CycleOutcome × Guarded σ) :=
  CyclePoint.run step actions .entering state

/-- Lets cycles run. -/
def start {σ : Type} (state : Guarded σ) : Guarded σ :=
  { state with flags.running := true }

/-- Where a stop stands. -/
inductive StopPoint where
  /-- About to clear `running`. -/
  | clearing
  /-- Waiting for `indexing` to be clear. -/
  | waiting
  /-- At its end, with a result. -/
  | finished (result : Except Error Unit)

namespace StopPoint

variable {σ : Type}

/-- The next action of a stop. A stop that waits looks at `indexing` once; when it finds
    it set it goes on waiting, unless its time is over. -/
def advance (timeout : UInt64) (timeOver : Bool) (state : Guarded σ) :
    StopPoint → StopPoint × Guarded σ
  | .clearing => (.waiting, { state with flags.running := false })
  | .waiting =>
    if !state.flags.indexing then (.finished (.ok ()), state)
    else if timeOver then (.finished (.error (.stopTimeout timeout)), state)
    else (.waiting, state)
  | .finished result => (.finished result, state)

end StopPoint

/-- A stop run by itself: no cycle goes on meanwhile, so one that is under way stays so
    until the time is over. -/
def stop {σ : Type} (timeout : UInt64) (state : Guarded σ) : Except Error Unit × Guarded σ :=
  let (point, state) := StopPoint.clearing.advance timeout false state
  match point.advance timeout true state with
  | (.finished result, state) => (result, state)
  | (_, state) => (.ok (), state)

end ChainIndex
