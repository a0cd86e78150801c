import ChainIndex.Yaml.Print

/-!
# Scalars in a YAML document

How the text of a scalar is taken from a document, in each of the five styles. Lines are
folded: a single line end between two pieces of text is a space, and of several the first
is dropped. Blanks around a line end never count. Only a literal block keeps its lines.

A cursor is a place in a document: what is ahead, and the line and the column it stands
at. Columns decide where a plain scalar or a block ends.

## Main definitions

* `Yaml.Cursor`: A place in a document.
* `Yaml.Folding`: Blanks and line ends between two pieces of text.
* `Yaml.plainScalar`, `quotedScalar`, `blockScalar`: The text of a scalar.
-/

namespace ChainIndex.Yaml

/-- A place in a document. -/
structure Cursor where
  /-- The characters ahead. -/
  rest : List Char
  /-- How many lines are behind. -/
  line : Nat
  /-- How many characters of the line are behind. -/
  column : Nat
  /-- How many characters are behind. -/
  index : Nat

namespace Cursor

/-- The beginning of a document. -/
def start (text : List Char) : Cursor := ⟨text, 0, 0, 0⟩

/-- The character `n` ahead. -/
def peek (cursor : Cursor) (n : Nat) : Option Char := cursor.rest[n]?

/-- Past `n` characters of the line. -/
def skip (cursor : Cursor) (n : Nat) : Cursor :=
  ⟨cursor.rest.drop n, cursor.line, cursor.column + n, cursor.index + n⟩

/-- Past every next character of a kind; line ends are not of the kind. -/
def skipWhile (kind : Char → Bool) (cursor : Cursor) : Cursor :=
  cursor.skip (cursor.rest.takeWhile kind).length

/-- Past a line end. -/
def skipBreak (cursor : Cursor) : Cursor :=
  match cursor.rest with
  | '\r' :: '\n' :: rest => ⟨rest, cursor.line + 1, 0, cursor.index + 2⟩
  | _ :: rest => ⟨rest, cursor.line + 1, 0, cursor.index + 1⟩
  | [] => cursor

/-- Is a line end ahead? -/
def atBreak (cursor : Cursor) : Bool := (cursor.peek 0).any isBreak

/-- Is a blank ahead? -/
def atBlank (cursor : Cursor) : Bool := (cursor.peek 0).any fun c => c == ' ' || c == '\t'

/-- The line end ahead, as text. All but the separators of lines and paragraphs are the
    same. -/
def breakText (cursor : Cursor) : List Char :=
  match cursor.peek 0 with
  | some c =>
    if c == '\u2028' || c == '\u2029' then [c] else if isBreak c then ['\n'] else []
  | none => []

/-- Does a line start here that starts or ends a document? -/
def atDocumentMark (cursor : Cursor) (mark : Char) : Bool :=
  cursor.column == 0 && cursor.rest.take 3 == [mark, mark, mark] && isGap (cursor.peek 3)

/-- Does a line start here that starts or ends a document, whichever? -/
def atAnyDocumentMark (cursor : Cursor) : Bool :=
  cursor.atDocumentMark '-' || cursor.atDocumentMark '.'

end Cursor

/-! ## Folding -/

/-- Blanks and line ends between two pieces of text. -/
inductive Folding where
  /-- Blanks within a line. -/
  | blanks (text : List Char)
  /-- Line ends: the first one, and the others. -/
  | lines (first rest : List Char)

namespace Folding

/-- Nothing in between. -/
def nothing : Folding := .blanks []

/-- Is there a line end? -/
def hasLine : Folding → Bool
  | .blanks _ => false
  | .lines _ _ => true

/-- Is there nothing in between? -/
def isNothing : Folding → Bool
  | .blanks text => text.isEmpty
  | .lines _ _ => false

/-- One more blank. Behind a line end it does not count. -/
def blank (c : Char) : Folding → Folding
  | .blanks text => .blanks (text ++ [c])
  | .lines first rest => .lines first rest

/-- One more line end. The blanks before the first one do not count. -/
def line (text : List Char) : Folding → Folding
  | .blanks _ => .lines text []
  | .lines first rest => .lines first (rest ++ text)

/-- What stands for it between the two pieces. -/
def text : Folding → List Char
  | .blanks text => text
  | .lines ['\n'] [] => [' ']
  | .lines ['\n'] rest => rest
  | .lines first rest => first ++ rest

end Folding

/-- Where the text of a scalar ended. -/
structure Scanned where
  /-- The text. -/
  text : List Char
  /-- Is a line end behind it, which belongs to the scalar? -/
  hasLine : Bool
  /-- The place behind it. -/
  cursor : Cursor

/-! ## Plain scalars -/

/-- Ends a collection in brackets, or an item of one. -/
def isFlowEnd (c : Char) : Bool := [',', '[', ']', '\x7b', '\x7d'].contains c

/-- The rest of a plain scalar, behind `text`, which is in reverse. -/
def plainFrom (inFlow : Bool) (indent : Int) :
    Nat → Folding → List Char → Cursor → Option Scanned
  | 0, _, _, _ => none
  | fuel + 1, folding, text, cursor =>
    let ended : Option Scanned := some ⟨text.reverse, folding.hasLine, cursor⟩
    match cursor.rest with
    | [] => ended
    | c :: _ =>
      if isBreak c then
        plainFrom inFlow indent fuel (folding.line cursor.breakText) text cursor.skipBreak
      else if c == ' ' || c == '\t' then
        -- A tab may stand between words, but not where a line is indented.
        if folding.hasLine && cursor.column < indent && c == '\t' then none
        else plainFrom inFlow indent fuel (folding.blank c) text (cursor.skip 1)
      -- Behind a gap the scalar can end at a comment, at a mark, or by indentation.
      else if !folding.isNothing
          && (c == '#' || cursor.atAnyDocumentMark || (!inFlow && cursor.column < indent)) then
        ended
      else if inFlow && c == ':' && (cursor.peek 1).any fun d => d == '?' || isFlowEnd d then none
      else if (c == ':' && isGap (cursor.peek 1)) || (inFlow && isFlowEnd c) then ended
      else
        plainFrom inFlow indent fuel .nothing (c :: folding.text.reverse ++ text) (cursor.skip 1)

/-- A plain scalar. Outside of brackets it ends at a line indented less than `indent`. -/
def plainScalar (inFlow : Bool) (indent : Int) (cursor : Cursor) : Option Scanned :=
  plainFrom inFlow indent (cursor.rest.length + 1) .nothing [] cursor

/-! ## Quoted scalars -/

/-- The character of an escape by a letter. -/
def escaped? (c : Char) : Option Char :=
  [('0', '\x00'), ('a', '\x07'), ('b', '\x08'), ('t', '\t'), ('\t', '\t'), ('n', '\n'),
    ('v', '\x0b'), ('f', '\x0c'), ('r', '\r'), ('e', '\x1b'), (' ', ' '), ('"', '"'),
    ('/', '/'), ('\\', '\\'), ('N', '\u0085'), ('_', '\u00a0'), ('L', '\u2028'),
    ('P', '\u2029')].lookup c

/-- How many digits an escape by number has. -/
def escapeWidth? (c : Char) : Option Nat :=
  [('x', 2), ('u', 4), ('U', 8)].lookup c

/-- The character that an escape stands for, and how many characters it takes behind the
    backslash. -/
def escape? (cursor : Cursor) : Option (Char × Nat) := do
  let letter ← cursor.peek 1
  match escapeWidth? letter with
  | none => return (← escaped? letter, 1)
  | some width =>
    let digits := (cursor.rest.drop 2).take width
    if digits.length < width then none
    else
      let n ← numeral? 16 digits
      if n.isValidChar then return (Char.ofNat n, 1 + width) else none

/-- The rest of a quoted scalar, behind `text`, which is in reverse. -/
def quotedFrom (quote : Char) : Nat → Folding → List Char → Cursor → Option Scanned
  | 0, _, _, _ => none
  | fuel + 1, folding, text, cursor =>
    match cursor.rest with
    | [] => none
    | c :: _ =>
      if cursor.atAnyDocumentMark then none
      else if isBreak c then
        quotedFrom quote fuel (folding.line cursor.breakText) text cursor.skipBreak
      else if c == ' ' || c == '\t' then
        quotedFrom quote fuel (folding.blank c) text (cursor.skip 1)
      else
        let text := folding.text.reverse ++ text
        if c == quote then
          -- A single quote written twice stands for one.
          if quote == '\'' && cursor.peek 1 == some quote then
            quotedFrom quote fuel .nothing (quote :: text) (cursor.skip 2)
          else some ⟨text.reverse, false, cursor.skip 1⟩
        else if quote == '"' && c == '\\' then
          if (cursor.peek 1).any isBreak then
            -- An escaped line end joins two lines without a space.
            quotedFrom quote fuel (.lines [] []) text (cursor.skip 1).skipBreak
          else
            match escape? cursor with
            | some (c, width) =>
              quotedFrom quote fuel .nothing (c :: text) (cursor.skip (1 + width))
            | none => none
        else quotedFrom quote fuel .nothing (c :: text) (cursor.skip 1)

/-- A scalar in quotes. -/
def quotedScalar (quote : Char) (cursor : Cursor) : Option Scanned :=
  quotedFrom quote (cursor.rest.length + 1) .nothing [] (cursor.skip 1)

/-! ## Block scalars -/

/-- What the head of a block says. -/
structure BlockHead where
  /-- Its indentation against what it stands in. -/
  increment : Option Nat
  /-- `-` drops every line end at the end, `+` keeps every one, nothing keeps the first. -/
  chomp : Option Char

/-- Reads the marks behind the indicator of a block, in either order. -/
def blockHead (cursor : Cursor) : Option (BlockHead × Cursor) :=
  let isChomp (c : Char) : Bool := c == '+' || c == '-'
  let width (c : Char) : Option Nat := if c == '0' then none else some (c.toNat - '0'.toNat)
  match cursor.peek 0, cursor.peek 1 with
  | some c, next =>
    if isChomp c then
      match next with
      | some d =>
        if d.isDigit then (width d).map fun n => (⟨some n, some c⟩, cursor.skip 2)
        else some (⟨none, some c⟩, cursor.skip 1)
      | none => some (⟨none, some c⟩, cursor.skip 1)
    else if c.isDigit then
      match next with
      | some d =>
        if isChomp d then (width c).map fun n => (⟨some n, some d⟩, cursor.skip 2)
        else (width c).map fun n => (⟨some n, none⟩, cursor.skip 1)
      | none => (width c).map fun n => (⟨some n, none⟩, cursor.skip 1)
    else some (⟨none, none⟩, cursor)
  | none, _ => some (⟨none, none⟩, cursor)

/-- Past lines without text, up to the indentation if it is known. With the line ends, and
    the greatest column that was met. A tab may not indent. -/
def emptyLines (indent : Option Nat) : Nat → List Char → Nat → Cursor →
    Option (List Char × Nat × Cursor)
  | 0, _, _, _ => none
  | fuel + 1, breaks, greatest, cursor =>
    let spaces := (cursor.rest.takeWhile fun c => c == ' ').length
    let cursor := match indent with
      | none => cursor.skip spaces
      | some n => cursor.skip (min spaces (n - cursor.column))
    let greatest := max greatest cursor.column
    if cursor.peek 0 == some '\t' && indent.all fun n => cursor.column < n then none
    else if cursor.atBreak then
      emptyLines indent fuel (breaks ++ cursor.breakText) greatest cursor.skipBreak
    else some (breaks, greatest, cursor)

/-- The lines of a block, behind `text`. The line end behind the last one, and those of
    the lines without text that follow, are yet to be written. -/
def blockLines (folded : Bool) (indent : Nat) : Nat → List Char → List Char → List Char →
    Bool → Cursor → Option (List Char × List Char × List Char × Cursor)
  | 0, _, _, _, _, _ => none
  | fuel + 1, text, first, more, blankBefore, cursor =>
    if cursor.column != indent || cursor.rest.isEmpty then some (text, first, more, cursor)
    else
      let blankNow := cursor.atBlank
      -- Lines are only folded between two that do not start with a blank.
      let between :=
        if folded && first == ['\n'] && !blankBefore && !blankNow then
          if more.isEmpty then [' '] else more
        else first ++ more
      let line := cursor.rest.takeWhile fun c => !isBreak c
      let behind := cursor.skip line.length
      let first := behind.breakText
      let next := if behind.atBreak then behind.skipBreak else behind
      match emptyLines (some indent) fuel [] 0 next with
      | none => none
      | some (more, _, next) =>
        blockLines folded indent fuel (text ++ between ++ line) first more blankNow next

/-- A block scalar, from its indicator on, in something indented by `outer`. -/
def blockScalar (folded : Bool) (outer : Int) (cursor : Cursor) : Option Scanned := do
  let fuel := cursor.rest.length + 1
  let (head, cursor) ← blockHead (cursor.skip 1)
  let cursor := cursor.skipWhile fun c => c == ' ' || c == '\t'
  let cursor :=
    if cursor.peek 0 == some '#' then cursor.skipWhile fun c => !isBreak c else cursor
  let cursor ←
    if cursor.rest.isEmpty then some cursor
    else if cursor.atBreak then some cursor.skipBreak
    else none
  -- The indentation is what the head says, or else that of the first line with text.
  let known := head.increment.map fun n => if 0 ≤ outer then outer.toNat + n else n
  let (more, greatest, cursor) ← emptyLines known fuel [] 0 cursor
  let indent := known.getD (max greatest (max (outer + 1) 1).toNat)
  let (text, first, more, cursor) ← blockLines folded indent fuel [] [] more false cursor
  let tail :=
    if head.chomp == some '-' then []
    else if head.chomp == some '+' then first ++ more
    else first
  return ⟨text ++ tail, true, cursor⟩

end ChainIndex.Yaml
