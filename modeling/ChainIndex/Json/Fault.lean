import ChainIndex.Json.Value
import ChainIndex.Decimal.Shortest
import ChainIndex.Text.Quoted

/-!
# Why a value was refused

Reading a record from a document value fails for one of a handful of causes. Each
of them is a constructor here, and the wording of all of them is in one place.

## Main definitions

* `Json.Fault`: The causes.
* `Json.described`: What was found, as a message names it.
* `Json.Fault.message`: The wording.
-/

namespace ChainIndex

namespace Json

/-- What was found, as a message names it. -/
def described : Json → String
  | .null => "null"
  | .bool b => "boolean `" ++ (if b then "true" else "false") ++ "`"
  | .int n => "integer `" ++ toString n ++ "`"
  | .float x => "floating point `" ++ x.text ++ "`"
  | .string s => "string " ++ Text.quoted s
  | .array _ => "sequence"
  | .object _ => "map"

/-- Why a document value could not be read as what was asked for. -/
inductive Fault where
  /-- A value of another kind. -/
  | kind (found : Json) (expected : String)
  /-- An integer outside the range of its type. -/
  | range (found : Int) (expected : String)
  /-- An object that should name one variant and has no key or several. -/
  | variantCount
  /-- A name that is no variant. -/
  | variant (name : String) (known : List String)
  /-- A field without default that is not there. -/
  | missing (field : String)
  /-- A field that is there twice. -/
  | duplicate (field : String)
  /-- An array that ends before a field without default, which is missed at a position. -/
  | short (position : Nat) (record : String) (fields : Nat)
  /-- An array with more items than there are fields. -/
  | surplus (length : Nat)
  /-- Anything else, in words. -/
  | other (reason : String)
deriving DecidableEq

/-- A count with its noun. -/
def countedElements (n : Nat) : String :=
  toString n ++ (if n = 1 then " element" else " elements")

/-- Names between backticks, as a message lists the variants. -/
def listedNames (names : List String) : String :=
  match names.map (fun name => "`" ++ name ++ "`") with
  | [] => "there are no variants"
  | [one] => "expected " ++ one
  | [one, two] => "expected " ++ one ++ " or " ++ two
  | many => "expected one of " ++ String.intercalate ", " many

/-- The wording of a fault. -/
def Fault.message : Fault → String
  | .kind found expected => "invalid type: " ++ found.described ++ ", expected " ++ expected
  | .range found expected =>
    "invalid value: integer `" ++ toString found ++ "`, expected " ++ expected
  | .variantCount => "invalid value: map, expected map with a single key"
  | .variant name known => "unknown variant `" ++ name ++ "`, " ++ listedNames known
  | .missing field => "missing field `" ++ field ++ "`"
  | .duplicate field => "duplicate field `" ++ field ++ "`"
  | .short position record fields =>
    "invalid length " ++ toString position ++ ", expected struct " ++ record ++ " with "
      ++ countedElements fields
  | .surplus length =>
    "invalid length " ++ toString length ++ ", expected fewer elements in array"
  | .other reason => reason

end Json

end ChainIndex
