import ChainIndex.Command.Run
import ChainIndex.Store.Snapshot
import Std.Time.DateTime

/-!
# The command line

Reads the files that the arguments name, runs the command on what they hold, and writes
back its database and what it prints.
-/

namespace ChainIndex

/-- The files that a command reads, besides its database. -/
def Command.inputs : Command → List String
  | .config file => file.toList
  | .replay _ chain settings => chain :: settings.toList
  | _ => []

/-- The database of a command. -/
def Command.database? : Command → Option String
  | .status database => some database
  | .blocks database _ => some database
  | .replay database _ _ => some database
  | _ => none

/-- The path of the database that some arguments name. -/
def databasePath? (arguments : List String) : Option String :=
  match Request.ofArguments? arguments with
  | some (.run command) =>
    match command.database?.bind DatabasePlace.ofName? with
    | some (.file path _) => some path
    | _ => none
  | _ => none

/-- The files that some arguments name, besides the database. -/
def inputPaths (arguments : List String) : List String :=
  match Request.ofArguments? arguments with
  | some (.run command) => command.inputs
  | _ => []

/-- Is there anything at a path? -/
def isThere (path : String) : IO Bool := do
  try
    discard (IO.FS.realPath path)
    return true
  catch _ => return false

/-- Adds what is at a path to a directory. -/
def withPath (directory : Directory) (path : String) (decode : ByteArray → FileContent) :
    IO Directory := do
  let parent := "/".intercalate (Directory.parts path).dropLast
  let directory :=
    if ← isThere (if parent == "" then "/" else parent) then
      { directory with folders := (Directory.parts path).dropLast :: directory.folders }
    else directory
  try
    let content ← IO.FS.readBinFile path
    return directory.put path (decode content)
  catch _ =>
    if ← isThere path then
      return { directory with folders := Directory.parts path :: directory.folders }
    else return directory

/-- The content of a file that may be a database. -/
def databaseContent (content : ByteArray) : FileContent :=
  match (String.fromUTF8? content).bind TableStore.ofText? with
  | some store => .database store
  | none => .bytes content

end ChainIndex

open ChainIndex in
/-- Runs what the arguments ask for. -/
def main (arguments : List String) : IO UInt32 := do
  let mut directory : Directory := ⟨[], []⟩
  for path in inputPaths arguments do
    directory ← withPath directory path .bytes
  let database := databasePath? arguments
  if let some path := database then
    directory ← withPath directory path databaseContent
  let now ← Std.Time.Timestamp.now
  let performed :=
    performArguments directory (Int64.ofInt now.toSecondsSinceUnixEpoch.val) arguments
  if let some path := database then
    if let some (.database store) := performed.console.directory.lookup path then
      IO.FS.writeFile path store.toText
  (← IO.getStdout).putStr performed.console.printed
  match performed.failure with
  | none => return 0
  | some failure =>
    (← IO.getStderr).putStrLn ("Error: " ++ failure.message)
    return failure.exitCode.toUInt32
