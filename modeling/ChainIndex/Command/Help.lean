import ChainIndex.Command.Arguments
import ChainIndex.Chain.Operation
import ChainIndex.Config

/-!
# Texts of the command line

The texts that are shown when they are asked for: help, the version, and what the program
can do. A list of commands or options has two columns, the second one starting two places
behind the widest entry of the first.

## Main definitions

* `programName`, `programVersion`: The name and the version.
* `helpText`: Help about a topic.
* `infoText`: What the program can do.
-/

namespace ChainIndex

/-- The name of the program. -/
def programName : String := "chainmirror"

/-- The version of the program. -/
def programVersion : String := "0.1.0"

/-- The text that shows the version. -/
def versionText : String := programName ++ " " ++ programVersion ++ "\n"

/-- Lines of two columns. -/
def columns (rows : List (String × String)) : String :=
  let width := (rows.map fun row => row.1.length).foldl max 0
  String.join <| rows.map fun (left, right) =>
    left ++ String.ofList (List.replicate (width + 2 - left.length) ' ') ++ right ++ "\n"

/-- What each command does. -/
def commandPurposes : List (String × String) :=
  [("info", "Show build and capability info"),
    ("config", "Print the effective sync configuration as YAML"),
    ("status", "Show the status ledger and the indexed tip"),
    ("blocks", "List indexed blocks, newest first"),
    ("replay", "Index a JSON array of verbose blocks (index = height) into the mirror"),
    ("help", "Print this message or the help of the given subcommand(s)")]

/-- How each command is used. -/
def commandUsages : List (String × String) :=
  [("info", ""),
    ("config", " [OPTIONS]"),
    ("status", " --db <DB>"),
    ("blocks", " [OPTIONS] --db <DB>"),
    ("replay", " [OPTIONS] --db <DB> --blocks <BLOCKS>"),
    ("help", " [COMMAND]...")]

/-- What each option of a command is for. -/
def optionPurposes (name : String) : List (String × String) :=
  match name with
  | "config" => [("      --file <FILE>", "YAML file to load; defaults apply to missing fields")]
  | "status" => [("      --db <DB>", "SQLite database of the mirror")]
  | "blocks" =>
    [("      --db <DB>", ""), ("      --limit <LIMIT>", "[default: 30]"),
      ("      --next <NEXT>", "Cursor from a previous page")]
  | "replay" =>
    [("      --db <DB>", ""),
      ("      --blocks <BLOCKS>", "File holding \u0060getblock <hash> 2\u0060 style blocks"),
      ("      --config <CONFIG>", "")]
  | _ => []

/-- The option that asks for help. -/
def helpOption : String × String := ("  -h, --help", "Print help")

/-- Help about a topic. -/
def helpText : Topic → String
  | .general =>
    "Reorg-safe blockchain mirror: ChainMirror CLI\n\nUsage: " ++ programName ++ " <COMMAND>\n"
      ++ "\nCommands:\n"
      ++ columns (commandPurposes.map fun (name, purpose) => ("  " ++ name, purpose))
      ++ "\nOptions:\n" ++ columns [helpOption, ("  -V, --version", "Print version")]
  | .command name =>
    let purpose := (commandPurposes.lookup name).getD ""
    let usage := (commandUsages.lookup name).getD ""
    let arguments :=
      if name == "help" then
        "Arguments:\n" ++ columns [("  [COMMAND]...", "Print help for the subcommand(s)")]
      else "Options:\n" ++ columns (optionPurposes name ++ [helpOption])
    purpose ++ "\n\nUsage: " ++ programName ++ " " ++ name ++ usage ++ "\n\n" ++ arguments

/-- What the program can do. -/
def infoText : String :=
  let settings := Config.standard
  "ChainMirror v" ++ programVersion ++ "\n"
    ++ "  Default poll interval: " ++ toString settings.pollIntervalMs.toNat ++ "ms\n"
    ++ "  Default stop timeout: " ++ toString settings.stopTimeoutMs.toNat ++ "ms\n"
    ++ "  Readiness lag: " ++ toString settings.readinessMaxLag.toNat ++ " blocks\n"
    ++ "  Storage backends: memory, SQLite\n"
    ++ "  Indexed ops: " ++ String.intercalate ", " (OpTag.all.map OpTag.name) ++ "\n"

end ChainIndex
