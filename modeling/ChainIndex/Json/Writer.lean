import ChainIndex.Json.Value

/-!
# Writing records as document values

The document values of plain types, one function each, as the counterparts of the
readers. Integers are written in full, doubles as doubles, a missing value as null.

## Main definitions

* `Json.ofUInt32`, `Json.ofInt64`, and so on: Plain types.
* `Json.ofOption`, `Json.ofList`: Optional values and sequences.
-/

namespace ChainIndex

namespace Json

/-- An 8-bit unsigned integer. -/
def ofUInt8 (n : UInt8) : Json := .int n.toNat

/-- A 32-bit unsigned integer. -/
def ofUInt32 (n : UInt32) : Json := .int n.toNat

/-- A 64-bit unsigned integer. -/
def ofUInt64 (n : UInt64) : Json := .int n.toNat

/-- A 64-bit signed integer. -/
def ofInt64 (n : Int64) : Json := .int n.toInt

/-- A value that may be missing. -/
def ofOption {α : Type} (write : α → Json) : Option α → Json
  | none => .null
  | some a => write a

/-- A sequence. -/
def ofList {α : Type} (write : α → Json) (items : List α) : Json :=
  .array (items.map write)

end Json

end ChainIndex
