import ChainIndex.Json.Value
import ChainIndex.Text.Hex
import ChainIndex.Decimal.Shortest

/-!
# Writing JSON text

Two layouts of a document value: on one line without blanks, and one item a line
with two blanks of indentation for each level. Strings escape quotes, backslashes
and control characters, and nothing else. A double is written as the shortest text
that reads back.

## Main definitions

* `Json.compact`: The value on one line.
* `Json.pretty`: The value over several lines.
-/

namespace ChainIndex

namespace Json

/-- A character inside a string. -/
def escapeChar (c : Char) : List Char :=
  if c = '"' then ['\\', '"']
  else if c = '\\' then ['\\', '\\']
  else if c = '\x08' then ['\\', 'b']
  else if c = '\x0c' then ['\\', 'f']
  else if c = '\n' then ['\\', 'n']
  else if c = '\r' then ['\\', 'r']
  else if c = '\t' then ['\\', 't']
  else if c.toNat < 0x20 then
    ['\\', 'u', '0', '0', Text.hexDigit (c.toNat / 16), Text.hexDigit (c.toNat % 16)]
  else [c]

/-- A string between its quotes. -/
def quote (s : String) : List Char :=
  '"' :: (s.toList.flatMap escapeChar ++ ['"'])

/-- What is put around the parts of arrays and objects. -/
structure Layout where
  /-- Line break and indentation at a nesting depth. -/
  newline : Nat → List Char
  /-- What follows the colon behind a key. -/
  afterColon : List Char

mutual

/-- A value at a nesting depth. -/
def chars (layout : Layout) (depth : Nat) : Json → List Char
  | .null => ['n', 'u', 'l', 'l']
  | .bool true => ['t', 'r', 'u', 'e']
  | .bool false => ['f', 'a', 'l', 's', 'e']
  | .int n => (toString n).toList
  | .float x => x.text.toList
  | .string s => quote s
  | .array [] => ['[', ']']
  | .array (item :: rest) =>
    '[' :: (layout.newline (depth + 1) ++ chars layout (depth + 1) item
      ++ itemsChars layout (depth + 1) rest ++ layout.newline depth ++ [']'])
  | .object [] => ['\x7b', '\x7d']
  | .object ((key, item) :: rest) =>
    '\x7b' :: (layout.newline (depth + 1) ++ quote key ++ ':' :: layout.afterColon
      ++ chars layout (depth + 1) item ++ entriesChars layout (depth + 1) rest
      ++ layout.newline depth ++ ['\x7d'])

/-- The items behind the first one. -/
def itemsChars (layout : Layout) (depth : Nat) : List Json → List Char
  | [] => []
  | item :: rest =>
    ',' :: (layout.newline depth ++ chars layout depth item ++ itemsChars layout depth rest)

/-- The entries behind the first one. -/
def entriesChars (layout : Layout) (depth : Nat) : List (String × Json) → List Char
  | [] => []
  | (key, item) :: rest =>
    ',' :: (layout.newline depth ++ quote key ++ ':' :: layout.afterColon
      ++ chars layout depth item ++ entriesChars layout depth rest)

end

/-- Everything on one line. -/
def oneLine : Layout where
  newline _ := []
  afterColon := []

/-- One item a line, two blanks a level. -/
def indented : Layout where
  newline depth := '\n' :: List.replicate (2 * depth) ' '
  afterColon := [' ']

/-- The value on one line. -/
def compact (value : Json) : String :=
  String.ofList (value.chars oneLine 0)

/-- The value over several lines. -/
def pretty (value : Json) : String :=
  String.ofList (value.chars indented 0)

end Json

end ChainIndex
