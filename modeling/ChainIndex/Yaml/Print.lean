import ChainIndex.Yaml.Scalar
import ChainIndex.Text.Hex

/-!
# Writing text as a YAML scalar

A text is written in the plainest style that reads back as the same text. Plain, if
nothing in it has a meaning in a document; in single quotes if something has, or if it
would be read as something else than text; as a literal block if it has several lines;
and in double quotes, with escapes, if it has characters that none of these can hold.

## Main definitions

* `Yaml.Style`: The styles.
* `Yaml.Traits`: What of a text decides about its style.
* `Yaml.styleOf`: The style of a text.
* `Yaml.entry`: A line of a block mapping with a text as its value.
-/

namespace ChainIndex.Yaml

/-! ## Characters -/

/-- Ends a line. -/
def isBreak (c : Char) : Bool :=
  c == '\n' || c == '\r' || c == '\u0085' || c == '\u2028' || c == '\u2029'

/-- A blank, a line end, or the end of the text. -/
def isGap : Option Char → Bool
  | none => true
  | some c => c == ' ' || c == '\t' || isBreak c || c.toNat == 0

/-- Can stand in a document as it is. -/
def isPrintable (c : Char) : Bool :=
  let n := c.toNat
  n == 10 || (32 ≤ n && n ≤ 126) || (160 ≤ n && n ≤ 55295)
    || (57344 ≤ n && n ≤ 65533 && n != 65279) || 65536 ≤ n

/-- May not start a plain scalar. -/
def isIndicator (c : Char) : Bool :=
  ['#', ',', '[', ']', '\x7b', '\x7d', '&', '*', '!', '|', '>', '\'', '"', '%', '@',
    '\u0060'].contains c

/-! ## Styles -/

/-- How a scalar is written. -/
inductive Style where
  /-- As it is. -/
  | plain
  /-- In single quotes. -/
  | singleQuoted
  /-- In double quotes, with escapes. -/
  | doubleQuoted
  /-- As lines of their own. -/
  | literal
  /-- As lines of their own that are folded into longer ones. -/
  | folded
deriving DecidableEq, Repr

/-- What of a text decides about its style. -/
structure Traits where
  /-- Something in it has a meaning in a document. -/
  indicators : Bool
  /-- Something in it cannot stand in a document as it is. -/
  special : Bool
  /-- It has a line end. -/
  breaks : Bool
  /-- It starts or ends with a space or a line end. -/
  ragged : Bool
  /-- It ends with a space. -/
  trailingSpace : Bool
  /-- It has a space right behind a line end. -/
  breakSpace : Bool
  /-- It has a line end right behind a space. -/
  spaceBreak : Bool
deriving DecidableEq, Repr

/-- Does a character have a meaning where it stands? It is told by its neighbours, the
    one before being nothing at the start of the text. -/
def isMeant (before : Option Char) (c : Char) (after : Option Char) : Bool :=
  match before with
  | none => isIndicator c || ((c == '?' || c == ':' || c == '-') && isGap after)
  | some before => (c == ':' && isGap after) || (c == '#' && isGap (some before))

/-- Every character with its neighbours. -/
def neighbours : Option Char → List Char → List (Option Char × Char × Option Char)
  | _, [] => []
  | before, c :: rest => (before, c, rest.head?) :: neighbours (some c) rest

/-- The traits of a text. -/
def Traits.of (text : List Char) : Traits :=
  let around := neighbours none text
  let edge (c : Char) : Bool := c == ' ' || isBreak c
  { indicators :=
      ['-', '-', '-'].isPrefixOf text || ['.', '.', '.'].isPrefixOf text
        || around.any fun (before, c, after) => isMeant before c after
    special := text.any fun c => !isPrintable c
    breaks := text.any isBreak
    ragged := text.head?.any edge || text.getLast?.any edge
    trailingSpace := text.getLast? == some ' '
    breakSpace := around.any fun (before, c, _) => c == ' ' && before.any isBreak
    spaceBreak := around.any fun (before, c, _) => isBreak c && before == some ' ' }

namespace Traits

/-- Can the text be written as it is? -/
def allowPlain (t : Traits) : Bool :=
  !(t.indicators || t.special || t.breaks || t.ragged)

/-- Can it be written in single quotes? -/
def allowSingleQuoted (t : Traits) : Bool :=
  !(t.special || t.breakSpace || t.spaceBreak)

/-- Can it be written as lines of their own? -/
def allowLiteral (t : Traits) : Bool :=
  !(t.special || t.trailingSpace || t.spaceBreak)

end Traits

/-- The style of a text. -/
def styleOf (text : String) : Style :=
  let traits := Traits.of text.toList
  -- Several lines are never written plain or in single quotes, though they could be.
  if text.toList.contains '\n' then
    if traits.allowLiteral then .literal else .doubleQuoted
  else if traits.allowPlain && !isAmbiguous text then .plain
  else if traits.allowSingleQuoted then .singleQuoted
  else .doubleQuoted

/-! ## Writing -/

/-- The indentation of what belongs to an entry. -/
def indentation : List Char := [' ', ' ']

/-- Text whose lines after the first are indented. `fresh` says that a line end has just
    been written; a line without text is not indented. -/
def indentLines (write : Char → List Char) : Bool → List Char → List Char
  | _, [] => []
  | fresh, c :: rest =>
    if isBreak c then c :: indentLines write true rest
    else (if fresh then indentation else []) ++ write c ++ indentLines write false rest

/-- Text in single quotes; a quote in it is written twice. -/
def singleQuoted (text : List Char) : List Char :=
  let body := indentLines (fun c => if c = '\'' then ['\'', '\''] else [c]) false text
  -- Behind a line end the closing quote starts a line, which is indented too.
  let close := if text.getLast?.any isBreak then indentation ++ ['\''] else ['\'']
  '\'' :: body ++ close

/-- A number in uppercase hexadecimal of some width. -/
def upperHex (width n : Nat) : List Char :=
  (Text.hexDigits width n).map Char.toUpper

/-- The letter that escapes a character, if it has one. -/
def escapeLetter? (c : Char) : Option Char :=
  [('\x00', '0'), ('\x07', 'a'), ('\x08', 'b'), ('\t', 't'), ('\n', 'n'), ('\x0b', 'v'),
    ('\x0c', 'f'), ('\r', 'r'), ('\x1b', 'e'), ('"', '"'), ('\\', '\\'), ('\u0085', 'N'),
    ('\u00a0', '_'), ('\u2028', 'L'), ('\u2029', 'P')].lookup c

/-- A character in double quotes. -/
def doubleQuotedChar (c : Char) : List Char :=
  if isPrintable c && !isBreak c && c != '"' && c != '\\' then [c]
  else
    match escapeLetter? c with
    | some letter => ['\\', letter]
    | none =>
      let n := c.toNat
      -- The shortest escape by number that can hold it.
      if n ≤ 0xff then '\\' :: 'x' :: upperHex 2 n
      else if n ≤ 0xffff then '\\' :: 'u' :: upperHex 4 n
      else '\\' :: 'U' :: upperHex 8 n

/-- Text in double quotes. -/
def doubleQuoted (text : List Char) : List Char :=
  '"' :: text.flatMap doubleQuotedChar ++ ['"']

/-- What the head of a literal says about its line ends: `-` that there is none at the
    end, `+` that there are several or nothing else. -/
def chomping (text : List Char) : List Char :=
  match text.reverse with
  | last :: before =>
    if !isBreak last then ['-']
    else
      match before with
      | [] => ['+']
      | c :: _ => if isBreak c then ['+'] else []
  | [] => ['-']

/-- Text as lines of their own. The indentation is said when it cannot be seen. -/
def literal (text : List Char) : List Char :=
  let hint := if text.head?.any fun c => c == ' ' || isBreak c then ['2'] else []
  '|' :: hint ++ chomping text ++ '\n' :: indentLines (fun c => [c]) true text

/-- A scalar. Double quotes can hold any text; nothing is written folded. -/
def scalar (text : String) : List Char :=
  match styleOf text with
  | .plain => text.toList
  | .singleQuoted => singleQuoted text.toList
  | .literal => literal text.toList
  | .doubleQuoted | .folded => doubleQuoted text.toList

/-- A line of a block mapping. It takes no further line end when the value has one. -/
def entry (key value : String) : String :=
  let written := scalar value
  let close := if written.getLast?.any isBreak then "" else "\n"
  key ++ ": " ++ String.ofList written ++ close

example : entry "a" "it's" = "a: it's\n" := by decide +kernel
example : entry "a" "yes" = "a: yes\n" := by decide +kernel
example : entry "a" "0x1f" = "a: '0x1f'\n" := by decide +kernel
example : entry "a" "b\nc" = "a: |-\n  b\n  c\n" := by decide +kernel

end ChainIndex.Yaml
