/-!
# What plain scalars stand for

In a YAML document a scalar without quotes may stand for something other than its text:
for null, a truth value, or a number. The rules here are those of the core schema of
YAML 1.2. Digits behind a leading zero are no number, though they look like one, so they
are told apart from both numbers and other text.

## Main definitions

* `Yaml.unsigned?`: The natural number that a scalar stands for.
* `Yaml.isNull`, `isBool`, `isInteger`, `isFloat`: Does a scalar stand for such a value?
* `Yaml.isZeroPadded`: Digits behind a leading zero.
-/

namespace ChainIndex.Yaml

/-- Does the scalar stand for null? -/
def isNull (text : String) : Bool :=
  text.isEmpty || ["null", "Null", "NULL", "~"].contains text

/-- Does the scalar stand for a truth value? -/
def isBool (text : String) : Bool :=
  ["true", "True", "TRUE", "false", "False", "FALSE"].contains text

/-! ## Integers -/

/-- The value of a digit in bases up to sixteen. -/
def digit? (c : Char) : Option Nat :=
  if c.isDigit then some (c.toNat - '0'.toNat)
  else if 'a' ≤ c ∧ c ≤ 'f' then some (c.toNat - 'a'.toNat + 10)
  else if 'A' ≤ c ∧ c ≤ 'F' then some (c.toNat - 'A'.toNat + 10)
  else none

/-- A number in some base. There has to be a digit. -/
def numeral? (base : Nat) (digits : List Char) : Option Nat :=
  if digits.isEmpty then none
  else digits.foldl
    (fun number c => do
      let d ← digit? c
      if d < base then return (← number) * base + d else none)
    (some 0)

/-- The base that two leading characters say. -/
def base? : List Char → Option (Nat × List Char)
  | '0' :: 'x' :: rest => some (16, rest)
  | '0' :: 'o' :: rest => some (8, rest)
  | '0' :: 'b' :: rest => some (2, rest)
  | _ => none

/-- Digits behind a leading zero, with or without a sign. -/
def isZeroPadded (text : List Char) : Bool :=
  let digits := match text with
    | '-' :: rest => rest
    | '+' :: rest => rest
    | _ => text
  match digits with
  | '0' :: second :: rest => (second :: rest).all Char.isDigit
  | _ => false

/-- A number in the base that its text says, in base ten if it says none. -/
def magnitude? (text : List Char) : Option Nat :=
  match base? text with
  | some (base, digits) => numeral? base digits
  | none => if isZeroPadded text then none else numeral? 10 text

/-- The natural number below `bound` that a scalar stands for. -/
def unsigned? (bound : Nat) (text : String) : Option Nat :=
  let magnitude := match text.toList with
    | '+' :: rest => magnitude? rest
    | text => magnitude? text
  magnitude.filter fun n => n < bound

/-- Is the scalar an integer of at most 128 bits? -/
def isInteger (text : String) : Bool :=
  (unsigned? (Nat.pow 2 128) text).isSome ||
    match text.toList with
    | '-' :: rest => ((magnitude? rest).filter fun n => n ≤ Nat.pow 2 127).isSome
    | _ => false

/-! ## Floating point -/

/-- The exponent of a decimal number: nothing, or a letter and an integer. -/
def exponent? : List Char → Option Int
  | [] => some 0
  | c :: rest =>
    if c = 'e' ∨ c = 'E' then
      match rest with
      | '-' :: digits => (numeral? 10 digits).map fun n => -(n : Int)
      | '+' :: digits => (numeral? 10 digits).map fun n => (n : Int)
      | digits => (numeral? 10 digits).map fun n => (n : Int)
    else none

/-- A decimal number without sign: its digits, and the power of ten behind them. -/
def decimal? (text : List Char) : Option (Nat × Int) := do
  let whole := text.takeWhile Char.isDigit
  let (fraction, rest) := match text.dropWhile Char.isDigit with
    | '.' :: rest => (rest.takeWhile Char.isDigit, rest.dropWhile Char.isDigit)
    | rest => ([], rest)
  let digits ← numeral? 10 (whole ++ fraction)
  let exponent ← exponent? rest
  return (digits, exponent - fraction.length)

/-- Is `digits · 10 ^ exponent` a double, that is, less than halfway from the greatest
    one to the next power of two? -/
def isFinite (digits : Nat) (exponent : Int) : Bool :=
  let places := (Nat.toDigits 10 digits).length
  let top := (places : Int) + exponent
  if digits = 0 || top ≤ 308 then true
  else if 309 < top then false
  else
    let limit := Nat.pow 2 1024 - Nat.pow 2 970
    match exponent with
    | .ofNat e => digits * Nat.pow 10 e < limit
    | .negSucc e => digits < limit * Nat.pow 10 (e + 1)

/-- Does the scalar stand for a floating-point number? -/
def isFloat (text : String) : Bool :=
  let signed := match text.toList with
    | '+' :: rest => rest
    | '-' :: rest => rest
    | rest => rest
  [".inf", ".Inf", ".INF"].contains (String.ofList signed)
    || [".nan", ".NaN", ".NAN"].contains text
    || match decimal? signed with
      | some (digits, exponent) => isFinite digits exponent
      | none => false

/-- Does the scalar stand for something other than its text, or look like it? -/
def isAmbiguous (text : String) : Bool :=
  isNull text || isBool text || isInteger text || isZeroPadded text.toList || isFloat text

end ChainIndex.Yaml
