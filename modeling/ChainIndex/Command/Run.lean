import ChainIndex.Command.Directory
import ChainIndex.Command.Help
import ChainIndex.Config.Document
import ChainIndex.Follower.Cycle
import ChainIndex.Indexer.Standard
import ChainIndex.World

/-!
# Running commands

What each command does to the files it works on, and what it prints. A command that fails
keeps what it has printed and written before: a database stays as the last write left it.
A failure says what the command was about to do, or else the error of the follower.

## Main definitions

* `CommandFailure`: Why a command failed.
* `Console`: The files and the text printed so far.
* `Replay`: What comes of following a chain.
* `Request.perform`: Does what is asked.
-/

namespace ChainIndex

/-- Why a command failed. -/
inductive CommandFailure where
  /-- The arguments ask for nothing. -/
  | usage
  /-- The settings at a path cannot be loaded. -/
  | loadingConfig (path : String)
  /-- No follower can run with the settings. -/
  | invalidConfig
  /-- A database cannot be opened. -/
  | openingDatabase (name : String)
  /-- A file is no text. -/
  | reading (path : String)
  /-- A file is no chain. -/
  | parsing (path : String)
  /-- The error of a follower or a store. -/
  | failed (error : Error)
deriving DecidableEq

namespace CommandFailure

/-- The wording of a failure. -/
def message : CommandFailure → String
  | .usage => "unusable arguments"
  | .loadingConfig path => "loading config " ++ path
  | .invalidConfig => "invalid config"
  | .openingDatabase name => "opening database " ++ name
  | .reading path => "reading " ++ path
  | .parsing path => "parsing " ++ path
  | .failed error => error.message

/-- The code that a command exits with. -/
def exitCode : CommandFailure → UInt8
  | .usage => 2
  | _ => 1

end CommandFailure

/-- The files and the clock of a command, and the text printed so far. -/
structure Console where
  /-- The files. -/
  directory : Directory
  /-- What the clock says, in seconds. -/
  now : Int64
  /-- The text. -/
  printed : String

/-- What a command does: it may fail, but nothing is taken back then. -/
abbrev Shell (α : Type) := ExceptT CommandFailure (StateM Console) α

namespace Shell

/-- Prints a text. -/
def print (text : String) : Shell Unit :=
  modify fun console => { console with printed := console.printed ++ text }

/-- A result that has to be there, or else a failure. -/
def orFail {α : Type} (failure : CommandFailure) : Option α → Shell α
  | some a => return a
  | none => throw failure

/-- A result that the follower or a store has given. -/
def orError {α : Type} : Except Error α → Shell α
  | .ok a => return a
  | .error e => throw (.failed e)

/-! ## Files -/

/-- The settings of a file, or all defaults. -/
def loadConfig (file : Option String) : Shell Config := do
  let config ← match file with
    | none => pure Config.standard
    | some path =>
      let directory := (← get).directory
      let content := directory.lookup path
      let loaded := match content with
        | some (.bytes content) => Config.load (some content)
        | some (.database _) => .error (.config .unreadable)
        | none => if directory.exists? path then .error (.config .unreadable) else Config.load none
      orFail (.loadingConfig path) loaded.toOption
  orFail .invalidConfig config.validate.toOption
  return config

/-- The text of a file. -/
def readText (path : String) : Shell String := do
  match (← get).directory.lookup path with
  | some (.bytes content) => orFail (.reading path) (String.fromUTF8? content)
  | _ => throw (.reading path)

/-- The chain that a text holds. An object of it may not have a field twice, except in a
    payload, where the last one counts. -/
def chainOfText? (text : String) : Option (List Block) := do
  let value ← Json.parse? text
  let read := Json.asList Block.read
  -- The first reading refuses repeated fields, the second one drops repeated keys.
  let _ ← (read value).toOption
  (read value.canonical).toOption

/-- A database, and the place where it is. -/
def openDatabase (name : String) : Shell (DatabasePlace × TableStore) := do
  let place ← orFail (.openingDatabase name) (DatabasePlace.ofName? name)
  let store ← orFail (.openingDatabase name) ((← get).directory.openDatabase? place)
  modify fun console => { console with directory := console.directory.saveDatabase store place }
  return (place, store)

/-- The world over a database and a chain. -/
def worldOver (store : TableStore) (chain : List Block) : Shell (World TableStore) := do
  return ⟨store, .ofChain chain, (← get).now⟩

/-- Asks a database something. -/
def query {α : Type} (store : TableStore) (program : Program α) : Shell α := do
  orError (program.run World.answer (← worldOver store [])).1

end Shell

/-! ## Replays -/

/-- What comes of following a chain. -/
structure Replay where
  /-- How the cycle ended. -/
  outcome : Except Error CycleOutcome
  /-- The database behind it. -/
  store : TableStore

/-- Follows the chain of a world for one cycle. -/
def replay (config : Config) (world : World TableStore) : Replay :=
  let follower := Follower.ofRegistry (Registry.standard config.nativeTokenSymbol)
  let step (state : Guarded (World TableStore)) :
      Except Error SyncStep × Guarded (World TableStore) :=
    let (result, world) := follower.step.run World.answer state.world
    (result, { state with world })
  match runCycle step patience (start ⟨.idle, world⟩) with
  | some (outcome, state) => ⟨outcome, state.world.store⟩
  | none => ⟨.error (.other "the cycle does not end"), world.store⟩

/-! ## Commands -/

namespace Command

/-- A block in a few words. -/
def tipText (label : String) (tip : BlockRecord) : String :=
  label ++ tip.hash ++ " at height " ++ toString tip.height.toNat ++ "\n"

/-- What was last attempted, in a few words. -/
def statusText : Option SyncStatus → String
  | some last =>
    "status: " ++ last.phase.shown ++ " at height " ++ toString last.height.toNat ++ " ("
      ++ last.hash ++ "), updated " ++ toString last.updatedAt.toInt ++ "\n"
  | none => "status: nothing indexed yet\n"

/-- A page of blocks, with the fields in the order of declaration. -/
def pageText (page : Page BlockRecord) : String :=
  (Json.object (page.fields fun block => .object (Entity.fields block))).pretty ++ "\n"

/-- How a cycle ended, in a few words. -/
def outcomeText : CycleOutcome → String
  | .completed steps => "replay complete: " ++ toString steps ++ " steps\n"
  | .skipped => "replay skipped\n"

/-- Runs a command. -/
def run : Command → Shell Unit
  | .info => Shell.print infoText
  | .config file => do
    let settings ← Shell.loadConfig file
    Shell.print settings.toYaml
  | .status database => do
    let (_, store) ← Shell.openDatabase database
    Shell.print (statusText (← Shell.query store SyncStatus.read?))
    if let some tip ← Shell.query store BlockRecord.tip? then
      Shell.print (tipText "tip:    " tip)
  | .blocks database query => do
    let (_, store) ← Shell.openDatabase database
    Shell.print (pageText (← Shell.query store (BlockRecord.page query)))
  | .replay database file settingsFile => do
    let settings ← Shell.loadConfig settingsFile
    let text ← Shell.readText file
    let chain ← Shell.orFail (.parsing file) (Shell.chainOfText? text)
    let (place, store) ← Shell.openDatabase database
    -- What was written before a failure is kept.
    let replayed := ChainIndex.replay settings (← Shell.worldOver store chain)
    modify fun console =>
      { console with directory := console.directory.saveDatabase replayed.store place }
    Shell.print (outcomeText (← Shell.orError replayed.outcome))
    if let some tip ← Shell.query replayed.store BlockRecord.tip? then
      Shell.print (tipText "tip: " tip)

end Command

/-- What comes of some arguments. -/
structure Performed where
  /-- Why it failed, if it did. -/
  failure : Option CommandFailure
  /-- The files and what was printed. -/
  console : Console

/-- Does what is asked. -/
def Request.perform : Request → Shell Unit
  | .run command => command.run
  | .help topic => Shell.print (helpText topic)
  | .version => Shell.print versionText

/-- Does what some arguments ask for. -/
def performArguments (directory : Directory) (now : Int64) (arguments : List String) : Performed :=
  let console : Console := ⟨directory, now, ""⟩
  match Request.ofArguments? arguments with
  | none => ⟨some .usage, console⟩
  | some request =>
    match request.perform.run.run console with
    | (.ok (), console) => ⟨none, console⟩
    | (.error failure, console) => ⟨some failure, console⟩

end ChainIndex
