import ChainIndex.Json.Fault

/-!
# Reading records from document values

A reader turns a document value into a value of some type or says why not. The
readers of plain types are given one by one; the reader of a record is put
together from its fields.

A record has two forms. As an object its fields are found by key: keys that name no
field are passed over, and a field that is not there takes its default. As an array
its fields stand in the order of their declaration: an array may end early where the
rest have defaults, and may not go on past the last field.

When several things are wrong, the first one met is reported. Values are met in the
order in which they stand, the ascending order of their keys for an object; only
after all of them is a field missed, and then the first in the order of declaration.
`Fields` therefore does not stop at the first fault. It collects what is wrong with
each field, and `Flaws.first` picks the one to report. Fields are combined with the
applicative operators:

```
Point.mk <$> field "x" u32 <*> field "y" u32
```

## Main definitions

* `Json.Reader`: A reader of some type.
* `Json.Fields`: Fields of a record, read together.
* `Json.record`: The reader of a record.
* `Json.variant`: The reader of a choice between names.

## Theorems

* `record_object`: An object is read as its fields are.
-/

namespace ChainIndex

namespace Json

/-- Reads a document value, or says why it cannot. -/
abbrev Reader (α : Type) := Json → Except Fault α

/-! ## Plain values -/

/-- Text. -/
def asString : Reader String
  | .string s => .ok s
  | value => .error (.kind value "a string")

/-- A truth value. -/
def asBool : Reader Bool
  | .bool b => .ok b
  | value => .error (.kind value "a boolean")

/-- Any value, as it stands. -/
def asAny : Reader Json := .ok

/-- An integer between `low` and `high`, ends included. -/
def asInt (expected : String) (low high : Int) : Reader Int
  | .int n => if low ≤ n ∧ n ≤ high then .ok n else .error (.range n expected)
  | value => .error (.kind value expected)

/-- An 8-bit unsigned integer. -/
def asUInt8 : Reader UInt8 := fun value =>
  (asInt "u8" 0 255 value).map fun n => UInt8.ofNat n.toNat

/-- A 32-bit unsigned integer. -/
def asUInt32 : Reader UInt32 := fun value =>
  (asInt "u32" 0 4294967295 value).map fun n => UInt32.ofNat n.toNat

/-- A 64-bit unsigned integer. -/
def asUInt64 : Reader UInt64 := fun value =>
  (asInt "u64" 0 18446744073709551615 value).map fun n => UInt64.ofNat n.toNat

/-- A 64-bit unsigned integer that counts items. -/
def asCount : Reader UInt64 := fun value =>
  (asInt "usize" 0 18446744073709551615 value).map fun n => UInt64.ofNat n.toNat

/-- A 64-bit signed integer. -/
def asInt64 : Reader Int64 := fun value =>
  (asInt "i64" (-9223372036854775808) 9223372036854775807 value).map Int64.ofInt

/-- A double. An integer is taken for the double nearest to it. -/
def asFloat : Reader FiniteFloat
  | .float x => .ok x
  | .int n =>
    match FiniteFloat.ofInt? n with
    | some x => .ok x
    | none => .error (.range n "f64")
  | value => .error (.kind value "f64")

/-- What `read` reads, or null for nothing. -/
def asOption {α : Type} (read : Reader α) : Reader (Option α)
  | .null => .ok none
  | value => (read value).map some

/-- A sequence whose items `read` reads, up to the first that it does not. -/
def asList {α : Type} (read : Reader α) : Reader (List α)
  | .array items => items.mapM read
  | value => .error (.kind value "a sequence")

/-- One of some names. It is given as text, or as an object whose only key is the
    name and whose value is null. -/
def variant {α : Type} (choices : List (String × α)) : Reader α := fun value =>
  let choose (name : String) : Except Fault α :=
    match choices.lookup name with
    | some choice => .ok choice
    | none => .error (.variant name (choices.map Prod.fst))
  match value with
  | .string name => choose name
  | .object [(name, content)] => do
    let choice ← choose name
    match content with
    | .null => return choice
    | other => .error (.kind other "unit")
  | .object _ => .error .variantCount
  | other => .error (.kind other "string or map")

/-! ## Records -/

/-- What is wrong with some fields of a record. -/
structure Flaws where
  /-- Fields whose value could not be read. -/
  bad : List (String × Fault)
  /-- Fields without default that are not there. -/
  absent : List String

/-- The fault to report: that of the first bad value in the order in which the keys
    are met, and only then the first field that is missed. -/
def Flaws.first (flaws : Flaws) (met : List String) (missed : String → Fault) : Fault :=
  match met.findSome? (fun key => flaws.bad.lookup key), flaws.absent with
  | some fault, _ => fault
  | none, field :: _ => missed field
  | none, [] => .other "no fault"

/-- Where fields are looked up. -/
structure Source where
  /-- The value of a field. -/
  find : String → Option Json
  /-- Do the fields stand in order, without keys? -/
  positional : Bool

/-- Some fields of a record, read together. -/
structure Fields (α : Type) where
  /-- Their keys, in the order of declaration. -/
  names : List String
  /-- What they hold, or everything that is wrong with them. -/
  read : Source → Except Flaws α

namespace Fields

/-- Gathers what is wrong on both sides. -/
def combine {α β : Type} (f : Except Flaws (α → β)) (a : Except Flaws α) : Except Flaws β :=
  match f, a with
  | .ok f, .ok a => .ok (f a)
  | .error e, .ok _ => .error e
  | .ok _, .error e => .error e
  | .error e₁, .error e₂ => .error ⟨e₁.bad ++ e₂.bad, e₁.absent ++ e₂.absent⟩

instance : Applicative Fields where
  pure a := ⟨[], fun _ => .ok a⟩
  map f a := ⟨a.names, fun source => (a.read source).map f⟩
  seq f a :=
    ⟨f.names ++ (a ()).names, fun source => combine (f.read source) ((a ()).read source)⟩

end Fields

/-- Reads the value of a field that is there. -/
def readPresent {α : Type} (name : String) (read : Reader α) (value : Json) : Except Flaws α :=
  match read value with
  | .ok a => .ok a
  | .error fault => .error ⟨[(name, fault)], []⟩

/-- A field that has to be there. -/
def field {α : Type} (name : String) (read : Reader α) : Fields α where
  names := [name]
  read source :=
    match source.find name with
    | some value => readPresent name read value
    | none => .error ⟨[], [name]⟩

/-- A field with a default. -/
def fieldOr {α : Type} (name : String) (read : Reader α) (default : α) : Fields α where
  names := [name]
  read source :=
    match source.find name with
    | some value => readPresent name read value
    | none => .ok default

/-- A field that may be null. An object may leave it out as well, an array may not. -/
def fieldOption {α : Type} (name : String) (read : Reader α) : Fields (Option α) where
  names := [name]
  read source :=
    match source.find name with
    | some value => readPresent name (asOption read) value
    | none => if source.positional then .error ⟨[], [name]⟩ else .ok none

/-- The first key of `keys` that is one of `names` and occurs again behind itself. -/
def repeatedName? (names : List String) : List String → Option String
  | [] => none
  | key :: rest =>
    if names.contains key && rest.contains key then some key else repeatedName? names rest

/-- The reader of a record called `name`, as an object or as an array. -/
def record {α : Type} (name : String) (fields : Fields α) : Reader α
  | .object entries =>
    let keys := entries.map Prod.fst
    match repeatedName? fields.names keys with
    | some key => .error (.duplicate key)
    | none =>
      match fields.read ⟨fun key => entries.lookup key, false⟩ with
      | .ok a => .ok a
      | .error flaws => .error (flaws.first keys .missing)
  | .array items =>
    match fields.read ⟨fun key => (fields.names.zip items).lookup key, true⟩ with
    | .ok a =>
      -- Only now is it asked whether anything is left.
      if items.length ≤ fields.names.length then .ok a
      else .error (.surplus items.length)
    | .error flaws =>
      .error (flaws.first fields.names fun field =>
        .short (fields.names.idxOf field) name fields.names.length)
  | value => .error (.kind value ("struct " ++ name))

theorem repeatedName?_eq_none (names keys : List String) (h : keys.Nodup) :
    repeatedName? names keys = none := by
  induction keys with
  | nil => rfl
  | cons key rest ih =>
    rw [List.nodup_cons] at h
    simp [repeatedName?, h.1, ih h.2]

/-- An object with each key once is read as its fields are. -/
theorem record_object {α : Type} (name : String) (fields : Fields α)
    (entries : List (String × Json)) (a : α) (distinct : (entries.map Prod.fst).Nodup)
    (h : fields.read ⟨fun key => entries.lookup key, false⟩ = .ok a) :
    record name fields (.object entries) = .ok a := by
  simp only [record, repeatedName?_eq_none _ _ distinct, h]

end Json

end ChainIndex
