import ChainIndex.Config
import ChainIndex.Yaml.Node

/-!
# Configuration documents

Settings in a YAML document: a mapping from the names of settings to their values, or a
sequence of values in the order of declaration. What is left out has its default, and a
document with nothing in it is all defaults. Any scalar will do for text. A number has to
be a plain scalar that stands for one.

## Main definitions

* `Config.toYaml`: Settings as a document.
* `Config.ofYaml`: The settings of a document.
* `Config.load`: The settings of a file.
-/

namespace ChainIndex

namespace Config

/-- The settings as a document, a line for each. -/
def toYaml (config : Config) : String :=
  let number (name : String) (n : Nat) : String := name ++ ": " ++ toString n ++ "\n"
  Yaml.entry "network" config.network
    ++ number "poll_interval_ms" config.pollIntervalMs.toNat
    ++ number "stop_timeout_ms" config.stopTimeoutMs.toNat
    ++ number "readiness_max_lag" config.readinessMaxLag.toNat
    ++ Yaml.entry "native_token_symbol" config.nativeTokenSymbol

/-- What the value of a setting is. -/
inductive SettingKind where
  /-- Text. -/
  | text
  /-- A natural number. -/
  | number
deriving DecidableEq, Repr

/-- The settings in the order of declaration. -/
def settings : List (String × SettingKind) :=
  [("network", .text), ("poll_interval_ms", .number), ("stop_timeout_ms", .number),
    ("readiness_max_lag", .number), ("native_token_symbol", .text)]

/-- May a scalar of this style and tag be read as a number? -/
def mayBeNumber (style : Yaml.Style) (tag : Option String) : Bool :=
  style == .plain || (style == .literal && tag == some "tag:yaml.org,2002:int")

/-- The value of a setting. -/
def settingValue? (kind : SettingKind) (node : Yaml.Node) : Option Json :=
  match kind, node with
  | .text, .scalar _ _ text => some (.string text)
  | .number, .scalar style tag text =>
    if mayBeNumber style tag then (Yaml.unsigned? UInt64.size text).map fun n => .int n else none
  | _, _ => none

/-- An entry of the document. One that is no setting is passed over. -/
def settingEntry? (entry : Yaml.Node × Yaml.Node) : Option (List (String × Json)) :=
  match entry with
  | (.scalar _ _ name, value) =>
    match settings.lookup name with
    | some kind => (settingValue? kind value).map fun value => [(name, value)]
    | none => some []
  | _ => none

/-- The items of a document that is a sequence. There may be no more than settings. -/
def settingItems? : List (String × SettingKind) → List Yaml.Node → Option (List Json)
  | _, [] => some []
  | [], _ :: _ => none
  | (_, kind) :: rest, item :: items => do
    return (← settingValue? kind item) :: (← settingItems? rest items)

/-- A document as an object or an array. -/
def documentValue? : Yaml.Node → Option Json
  | .mapping entries => do return .object (← entries.mapM settingEntry?).flatten
  | .sequence items => do return .array (← settingItems? settings items)
  | .scalar style _ text => if style = .plain ∧ text = "" then some (.object []) else none

/-- The settings of a document. A follower has to be able to run with them. -/
def ofYaml (text : String) : Except Error Config :=
  match (Yaml.Node.ofText? text).bind documentValue? with
  | none => .error (.config .unreadable)
  | some value =>
    -- A fault of a setting is a fault of the document.
    match read value with
    | .error _ => .error (.config .unreadable)
    | .ok config => config.validate.map fun _ => config

/-- The settings of a file, by its content. All are defaults when there is no file. -/
def load (content : Option ByteArray) : Except Error Config :=
  match content with
  | none => .ok standard
  | some bytes =>
    match String.fromUTF8? bytes with
    | some text => ofYaml text
    | none => .error (.config .unreadable)

end Config

end ChainIndex
