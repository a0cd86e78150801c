import ChainIndex.Json.Value

/-!
# Reading JSON text

A reader of JSON text over lists of characters. It keeps the entries of an object as
they are written, repeated keys included, so that a record reader can still refuse a
field that is given twice; `Json.canonical` is applied by whoever wants values.

A number is an integer when it has neither point nor exponent and fits a signed or
unsigned 64-bit word, and a double otherwise; minus zero is a double, too. Digits
that do not fit the 64-bit significand of a double are dropped, and the exponent
makes up for those before the point. A number too large for a double is no number.

Values nest at most 127 deep. The depth left is what the recursion goes by; the
loops inside one level go by the length of the text.

## Main definitions

* `Json.parse?`: The value that a text denotes.
* `Json.parseValue`: A value at the start of a text, and what follows it.
-/

namespace ChainIndex

namespace Json

/-- Is `c` one of the four blanks? -/
def isBlank (c : Char) : Bool :=
  c = ' ' || c = '\n' || c = '\t' || c = '\r'

/-- `cs` without leading blanks. -/
def skipBlanks (cs : List Char) : List Char :=
  cs.dropWhile isBlank

/-- The value of an ASCII digit. -/
def digitValue (c : Char) : Nat :=
  c.toNat - '0'.toNat

/-! ## Numbers -/

/-- A number while it is read. -/
structure Significand where
  /-- The digits kept. -/
  value : Nat
  /-- The power of ten of the last digit kept. -/
  exponent : Int
  /-- Has a digit been dropped? None behind it is kept. -/
  full : Bool

/-- Takes in one more digit before the point. -/
def Significand.pushWhole (s : Significand) (c : Char) : Significand :=
  let value := s.value * 10 + digitValue c
  if s.full || UInt64.size ≤ value then ⟨s.value, s.exponent + 1, true⟩
  else ⟨value, s.exponent, false⟩

/-- Takes in one more digit behind the point. -/
def Significand.pushFraction (s : Significand) (c : Char) : Significand :=
  let value := s.value * 10 + digitValue c
  if s.full || UInt64.size ≤ value then ⟨s.value, s.exponent, true⟩
  else ⟨value, s.exponent - 1, false⟩

/-- Digits as a natural number. -/
def decimalValue (digits : List Char) : Nat :=
  digits.foldl (fun n c => n * 10 + digitValue c) 0

/-- The exponent behind its mark, and the rest. -/
def parseExponent (cs : List Char) : Option (Int × List Char) :=
  let (negative, cs) :=
    match cs with
    | '+' :: rest => (false, rest)
    | '-' :: rest => (true, rest)
    | rest => (false, rest)
  match cs.takeWhile Char.isDigit with
  | [] => none
  | digits =>
    let e : Int := decimalValue digits
    some (if negative then -e else e, cs.dropWhile Char.isDigit)

/-- The double for a significand and a further power of ten. An exponent that does
    not fit 31 bits stands for zero or for a number that is too large. -/
def toDouble? (negative : Bool) (s : Significand) (power : Int) : Option Json :=
  let word := UInt64.ofNat s.value
  let limit := Nat.pow 2 31
  let exponent : Int :=
    if limit ≤ power.natAbs then (if power < 0 then -limit else limit)
    else s.exponent + power
  (FiniteFloat.scaled? negative word exponent).map .float

/-- The integer, or the double it is too large for. Minus zero is a double. -/
def toInteger? (negative : Bool) (s : Significand) : Option Json :=
  -- A negative number may be as low as the least signed word.
  if s.full then toDouble? negative s 0
  else if !negative then some (.int s.value)
  else if s.value = 0 ∨ Nat.pow 2 63 < s.value then toDouble? negative s 0
  else some (.int (-s.value))

/-- What follows the digits before the point. -/
def parseTail (negative : Bool) (whole : Significand) (cs : List Char) :
    Option (Json × List Char) :=
  let exponentOf (s : Significand) (cs : List Char) (plain : Option Json) :
      Option (Json × List Char) :=
    match cs with
    | c :: rest =>
      if c = 'e' ∨ c = 'E' then do
        let (power, rest) ← parseExponent rest
        let value ← toDouble? negative s power
        return (value, rest)
      else plain.map (·, cs)
    | [] => plain.map (·, [])
  match cs with
  | '.' :: rest =>
    match rest.takeWhile Char.isDigit with
    | [] => none
    | digits =>
      -- Whether there is room for a digit is asked afresh behind the point.
      let s := digits.foldl Significand.pushFraction { whole with full := false }
      exponentOf s (rest.dropWhile Char.isDigit) (toDouble? negative s 0)
  | _ => exponentOf whole cs (toInteger? negative whole)

/-- A number at the start of `cs`. A leading zero stands alone before the point. -/
def parseNumber (cs : List Char) : Option (Json × List Char) :=
  let (negative, cs) :=
    match cs with
    | '-' :: rest => (true, rest)
    | rest => (false, rest)
  match cs.takeWhile Char.isDigit with
  | [] => none
  | '0' :: _ :: _ => none
  | digits =>
    let whole := digits.foldl Significand.pushWhole ⟨0, 0, false⟩
    parseTail negative whole (cs.dropWhile Char.isDigit)

/-! ## Strings -/

/-- The value of a hexadecimal digit. -/
def hexValue? (c : Char) : Option Nat :=
  if c.isDigit then some (digitValue c)
  else if 'a' ≤ c ∧ c ≤ 'f' then some (c.toNat - 'a'.toNat + 10)
  else if 'A' ≤ c ∧ c ≤ 'F' then some (c.toNat - 'A'.toNat + 10)
  else none

/-- Four hexadecimal digits, and the rest. -/
def parseFourHex : List Char → Option (Nat × List Char)
  | a :: b :: c :: d :: rest => do
    let a ← hexValue? a
    let b ← hexValue? b
    let c ← hexValue? c
    let d ← hexValue? d
    return (((a * 16 + b) * 16 + c) * 16 + d, rest)
  | _ => none

/-- The character of a numeric escape. One outside the first plane takes two escapes,
    a leading and a trailing surrogate; a surrogate alone is no character. -/
def parseUnicode (cs : List Char) : Option (Char × List Char) := do
  let (high, rest) ← parseFourHex cs
  if 0xD800 ≤ high ∧ high < 0xDC00 then
    match rest with
    | '\\' :: 'u' :: rest =>
      let (low, rest) ← parseFourHex rest
      -- Ten bits from each of the two.
      if 0xDC00 ≤ low ∧ low < 0xE000 then
        return (Char.ofNat (0x10000 + (high - 0xD800) * 0x400 + (low - 0xDC00)), rest)
      else none
    | _ => none
  else if 0xDC00 ≤ high ∧ high < 0xE000 then none
  else return (Char.ofNat high, rest)

/-- The character of an escape, behind its backslash. -/
def parseEscape : List Char → Option (Char × List Char)
  | '"' :: rest => some ('"', rest)
  | '\\' :: rest => some ('\\', rest)
  | '/' :: rest => some ('/', rest)
  | 'b' :: rest => some ('\x08', rest)
  | 'f' :: rest => some ('\x0c', rest)
  | 'n' :: rest => some ('\n', rest)
  | 'r' :: rest => some ('\r', rest)
  | 't' :: rest => some ('\t', rest)
  | 'u' :: rest => parseUnicode rest
  | _ => none

/-- The characters up to the closing quote, in reverse onto `read`, and the rest.
    Control characters have to be escaped. -/
def parseChars : Nat → List Char → List Char → Option (List Char × List Char)
  | 0, _, _ => none
  | _ + 1, _, [] => none
  | fuel + 1, read, c :: rest =>
    if c = '"' then some (read, rest)
    else if c = '\\' then
      match parseEscape rest with
      | some (d, rest) => parseChars fuel (d :: read) rest
      | none => none
    else if c.toNat < 0x20 then none
    else parseChars fuel (c :: read) rest

/-- A string behind its opening quote. -/
def parseString (fuel : Nat) (cs : List Char) : Option (String × List Char) := do
  let (reversed, rest) ← parseChars fuel [] cs
  return (String.ofList reversed.reverse, rest)

/-! ## Values -/

/-- The items of an array up to its closing bracket, one at least. -/
def parseItems (value : List Char → Option (Json × List Char)) :
    Nat → List Json → List Char → Option (List Json × List Char)
  | 0, _, _ => none
  | fuel + 1, read, cs => do
    let (item, rest) ← value cs
    match skipBlanks rest with
    | ',' :: rest => parseItems value fuel (item :: read) rest
    | ']' :: rest => return ((item :: read).reverse, rest)
    | _ => none

/-- The entries of an object up to its closing brace, one at least. -/
def parseEntries (value : List Char → Option (Json × List Char)) (length : Nat) :
    Nat → List (String × Json) → List Char → Option (List (String × Json) × List Char)
  | 0, _, _ => none
  | fuel + 1, read, cs => do
    match skipBlanks cs with
    | '"' :: rest =>
      let (key, rest) ← parseString length rest
      match skipBlanks rest with
      | ':' :: rest =>
        let (item, rest) ← value rest
        match skipBlanks rest with
        | ',' :: rest => parseEntries value length fuel ((key, item) :: read) rest
        | '\x7d' :: rest => return (((key, item) :: read).reverse, rest)
        | _ => none
      | _ => none
    | _ => none

/-- A value at the start of `cs`, blanks before it skipped, and the rest. `depth` is
    how deep arrays and objects may still nest, `length` bounds their loops. -/
def parseValue (length : Nat) : Nat → List Char → Option (Json × List Char)
  | 0, _ => none
  | depth + 1, cs =>
    match skipBlanks cs with
    | 'n' :: 'u' :: 'l' :: 'l' :: rest => some (.null, rest)
    | 't' :: 'r' :: 'u' :: 'e' :: rest => some (.bool true, rest)
    | 'f' :: 'a' :: 'l' :: 's' :: 'e' :: rest => some (.bool false, rest)
    | '"' :: rest => (parseString length rest).map fun (s, rest) => (.string s, rest)
    | '[' :: rest =>
      if depth = 0 then none
      else
        match skipBlanks rest with
        | ']' :: rest => some (.array [], rest)
        | _ =>
          (parseItems (parseValue length depth) length [] rest).map fun (items, rest) =>
            (.array items, rest)
    | '\x7b' :: rest =>
      if depth = 0 then none
      else
        match skipBlanks rest with
        | '\x7d' :: rest => some (.object [], rest)
        | _ =>
          (parseEntries (parseValue length depth) length length [] rest).map
            fun (entries, rest) => (.object entries, rest)
    | cs => parseNumber cs

/-- The value that `text` denotes, entries as written. -/
def parse? (text : String) : Option Json :=
  let cs := text.toList
  match parseValue (cs.length + 1) 128 cs with
  | some (value, rest) => if (skipBlanks rest).isEmpty then some value else none
  | none => none

end Json

end ChainIndex
