import ChainIndex.Page

/-!
# Arguments

What is asked on the command line. The first argument names a command, and options follow
it, each at most once: `--name value` or `--name=value`. What follows an option as its
value may not look like an option itself. A path may not be empty, and a count has to be
one. Help ends the reading of arguments where it is met, so it is given even if something
is missing, but not if something before it is wrong.

## Main definitions

* `Command`: The commands.
* `Request`: A command, or a text that is asked for.
* `Request.ofArguments?`: What some arguments ask for.
-/

namespace ChainIndex

/-- What a command does, and to which files. -/
inductive Command where
  /-- Shows what can be done. -/
  | info
  /-- Shows the settings in effect. -/
  | config (file : Option String)
  /-- Shows what was last attempted, and the tip. -/
  | status (database : String)
  /-- Lists blocks, the newest first. -/
  | blocks (database : String) (query : PageQuery)
  /-- Follows a chain that is given as a file. -/
  | replay (database chain : String) (config : Option String)
deriving DecidableEq

/-- What a text of help is about. -/
inductive Topic where
  /-- Everything. -/
  | general
  /-- One command, or help itself. -/
  | command (name : String)
deriving DecidableEq, Repr

/-- What is asked for. -/
inductive Request where
  /-- To run a command. -/
  | run (command : Command)
  /-- To show help. -/
  | help (topic : Topic)
  /-- To show the version. -/
  | version
deriving DecidableEq

/-- What the value of an option is. -/
inductive OptionKind where
  /-- Any text. -/
  | text
  /-- A path. -/
  | path
  /-- A 64-bit natural number. -/
  | count
deriving DecidableEq, Repr

/-- An option of a command. -/
structure CommandOption where
  /-- Its name. -/
  name : String
  /-- What its value is. -/
  kind : OptionKind
deriving DecidableEq, Repr

/-- The number that a count stands for. A plus sign may stand before it. -/
def countOf? (text : String) : Option UInt64 :=
  let digits := match text.toList with
    | '+' :: rest => rest
    | chars => chars
  if digits.isEmpty || !digits.all Char.isDigit then none
  else
    let n := digits.foldl (fun n c => n * 10 + (c.toNat - '0'.toNat)) 0
    if n < UInt64.size then some (UInt64.ofNat n) else none

/-- Does an option have this as its value? -/
def CommandOption.accepts (option : CommandOption) (value : String) : Bool :=
  match option.kind with
  | .text => true
  | .path => !value.isEmpty
  | .count => (countOf? value).isSome

/-- Looks like an option: a dash, and something behind it. -/
def isOptionLike (argument : String) : Bool :=
  match argument.toList with
  | '-' :: _ :: _ => true
  | _ => false

/-- The options that were given, with their values. -/
inductive Given where
  /-- Help was asked for. -/
  | help
  /-- Options, the latest first. -/
  | options (values : List (String × String))

/-- An argument of the form `--name=value` or `--name`. -/
def longOption? (argument : String) : Option (String × Option String) :=
  match argument.toList with
  | '-' :: '-' :: rest =>
    let name := rest.takeWhile fun c => c != '='
    match rest.dropWhile fun c => c != '=' with
    | _ :: value => some (String.ofList name, some (String.ofList value))
    | [] => some (String.ofList name, none)
  | _ => none

/-- Adds an option to those given before, if it is new and its value will do. -/
def addOption? (given : List (String × String)) (option : CommandOption) (value : String) :
    Option (List (String × String)) :=
  if (given.lookup option.name).isSome || !option.accepts value then none
  else some ((option.name, value) :: given)

/-- Reads options up to the end. -/
def readOptions (options : List CommandOption) (given : List (String × String)) :
    List String → Option Given
  | [] => some (.options given)
  | argument :: rest =>
    -- Behind two dashes alone nothing is an option, and no command takes anything else.
    if argument == "--" then
      if rest.isEmpty then some (.options given) else none
    else
      match longOption? argument with
      | none => if argument.startsWith "-h" then some .help else none
      | some (name, attached) =>
        match options.find? (fun option => option.name == name) with
        -- Help takes no value.
        | none => if name == "help" && attached.isNone then some .help else none
        | some option =>
          match attached with
          | some value =>
            match addOption? given option value with
            | some given => readOptions options given rest
            | none => none
          | none =>
            match rest with
            | [] => none
            | value :: rest =>
              -- A value that looks like an option has to be attached.
              if isOptionLike value then none
              else
                match addOption? given option value with
                | some given => readOptions options given rest
                | none => none

/-- The options of each command. -/
def commandOptions : List (String × List CommandOption) :=
  [("info", []),
    ("config", [⟨"file", .path⟩]),
    ("status", [⟨"db", .text⟩]),
    ("blocks", [⟨"db", .text⟩, ⟨"limit", .count⟩, ⟨"next", .text⟩]),
    ("replay", [⟨"db", .text⟩, ⟨"blocks", .path⟩, ⟨"config", .path⟩])]

/-- How many blocks are listed when nothing else is said. -/
def defaultLimit : UInt64 := 30

/-- The command with these options, if none is missing. -/
def Command.ofOptions? (name : String) (given : List (String × String)) : Option Command := do
  match name with
  | "info" => return .info
  | "config" => return .config (given.lookup "file")
  | "status" => return .status (← given.lookup "db")
  | "blocks" =>
    let limit := ((given.lookup "limit").bind countOf?).getD defaultLimit
    return .blocks (← given.lookup "db") ⟨limit, given.lookup "next"⟩
  | "replay" =>
    return .replay (← given.lookup "db") (← given.lookup "blocks") (given.lookup "config")
  | _ => none

/-- The topic of which help is asked for by name. -/
def Topic.ofNames? : List String → Option Topic
  | [] => some .general
  | [name] =>
    if name == "help" || (commandOptions.lookup name).isSome then some (.command name) else none
  | _ => none

/-- What some arguments ask for, if they ask for anything. -/
def Request.ofArguments? : List String → Option Request
  | [] => none
  | name :: rest =>
    if name == "--help" || name.startsWith "-h" then some (.help .general)
    else if name == "--version" || name.startsWith "-V" then some .version
    else if name == "help" then (Topic.ofNames? rest).map .help
    else
      match commandOptions.lookup name with
      | none => none
      | some options =>
        match readOptions options [] rest with
        | none => none
        | some .help => some (.help (.command name))
        -- Whether an option is missing is asked only when all were read.
        | some (.options given) => (Command.ofOptions? name given).map .run

end ChainIndex
