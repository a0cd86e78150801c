import ChainIndex.Yaml.Cursor

/-!
# The tokens of a YAML document

A document as a list of tokens. Indentation becomes tokens of its own: one where a block
collection starts and one where it ends.

Whether a scalar or a collection is a key is only known at the `:` behind it. So wherever
a key may start a slot is left among the tokens, and the `:` fills the slot: with the mark
of a key and, for the first key of a block mapping, with the start of the mapping too.
Slots that are never filled are dropped. A key ends on the line it starts on, and has at
most 1024 characters.

## Main definitions

* `Yaml.Token`: The tokens.
* `Yaml.KeySlot`: Where a key may have started.
* `Yaml.Lexer`: What has been read, and where.
* `Yaml.Lexer.advance`: Reads one more token.
* `Yaml.tokens?`: The tokens of a document.
-/

namespace ChainIndex.Yaml

/-- A piece of a document. -/
inductive Token where
  /-- The version that a document asks for. -/
  | version (major minor : Nat)
  /-- A handle for tags, and what the tags behind it start with. -/
  | tagHandle (handle start : String)
  /-- A document starts. -/
  | documentStart
  /-- A document ends. -/
  | documentEnd
  /-- A block sequence starts. -/
  | blockSequence
  /-- A block mapping starts. -/
  | blockMapping
  /-- A block collection ends. -/
  | blockEnd
  /-- A bracketed sequence starts. -/
  | flowSequence
  /-- A bracketed sequence ends. -/
  | flowSequenceEnd
  /-- A bracketed mapping starts. -/
  | flowMapping
  /-- A bracketed mapping ends. -/
  | flowMappingEnd
  /-- An item of a block sequence follows. -/
  | blockEntry
  /-- An item of a bracketed collection follows. -/
  | flowEntry
  /-- A key follows. -/
  | key
  /-- A value follows. -/
  | value
  /-- A node that was named before. -/
  | alias (name : String)
  /-- The name of the node that follows. -/
  | anchor (name : String)
  /-- The tag of the node that follows: its handle and the rest. -/
  | tag (handle rest : String)
  /-- A scalar. -/
  | scalar (style : Style) (text : String)
deriving DecidableEq, Repr

/-- Where a key may have started. -/
structure KeySlot where
  /-- The position of the slot among the tokens. -/
  position : Nat
  /-- The place where it stands. -/
  place : Cursor
  /-- Does only a key fit there? -/
  required : Bool

/-- What has been read of a document, and where. -/
structure Lexer where
  /-- The place that has been reached. -/
  cursor : Cursor
  /-- The columns of the block collections around it, the innermost first. -/
  indents : List Nat
  /-- How many brackets are open. -/
  flow : Nat
  /-- May a key start here? -/
  keyAllowed : Bool
  /-- The last place where a key may have started, for each open bracket and outside. -/
  slots : List (Option KeySlot)
  /-- The tokens; a slot is a list without tokens until it is filled. -/
  tokens : Array (List Token)

namespace Lexer

/-- Nothing has been read. -/
def start (text : List Char) : Lexer where
  cursor := .start text
  indents := []
  flow := 0
  keyAllowed := true
  slots := [none]
  tokens := #[]

/-- The column of the innermost block collection. -/
def indent (lexer : Lexer) : Int :=
  match lexer.indents with
  | column :: _ => column
  | [] => -1

/-- Appends a token. -/
def push (lexer : Lexer) (token : Token) : Lexer :=
  { lexer with tokens := lexer.tokens.push [token] }

/-- Goes on at another place. -/
def goto (lexer : Lexer) (cursor : Cursor) : Lexer :=
  { lexer with cursor }

/-- Says whether a key may start at the next place. -/
def allowKey (lexer : Lexer) (allowed : Bool) : Lexer :=
  { lexer with keyAllowed := allowed }

/-! ## Blocks -/

/-- Starts a block collection at a column, unless it lies within one that stands there.
    The token is the one that starts it, if it does. -/
def indentTo (lexer : Lexer) (column : Nat) (token : Token) : List Token × Lexer :=
  if lexer.flow = 0 && lexer.indent < column then
    ([token], { lexer with indents := column :: lexer.indents })
  else ([], lexer)

/-- Ends every block collection that stands past a column. -/
def dedentTo (lexer : Lexer) (column : Int) : Lexer :=
  if lexer.flow = 0 then
    let ended := lexer.indents.takeWhile fun (other : Nat) => column < (other : Int)
    { lexer with
      indents := lexer.indents.drop ended.length
      tokens := lexer.tokens ++ (ended.map fun _ => [Token.blockEnd]).toArray }
  else lexer

/-! ## Slots -/

/-- Can the key that may have started at a slot no longer end? -/
def isStale (lexer : Lexer) (slot : KeySlot) : Bool :=
  slot.place.line < lexer.cursor.line || slot.place.index + 1024 < lexer.cursor.index

/-- Drops the slots whose key can no longer end; one where only a key fits is an error. -/
def dropStale (lexer : Lexer) : Option Lexer :=
  let stale := lexer.slots.filterMap fun slot => slot.filter lexer.isStale
  if stale.any KeySlot.required then none
  else
    some { lexer with
      slots := lexer.slots.map fun slot => slot.filter fun s => !lexer.isStale s }

/-- Drops the innermost slot; one where only a key fits is an error. -/
def dropSlot (lexer : Lexer) : Option Lexer :=
  match lexer.slots with
  | some slot :: rest => if slot.required then none else some { lexer with slots := none :: rest }
  | _ => some lexer

/-- Leaves a slot here, if a key may start here. -/
def leaveSlot (lexer : Lexer) : Option Lexer :=
  if lexer.keyAllowed then do
    let lexer ← lexer.dropSlot
    -- At the column of a block mapping nothing but its next key can start.
    let required := lexer.flow = 0 && lexer.indent == lexer.cursor.column
    let slot : KeySlot := ⟨lexer.tokens.size, lexer.cursor, required⟩
    return { lexer with
      slots := some slot :: lexer.slots.drop 1
      tokens := lexer.tokens.push [] }
  else some lexer

/-! ## Tokens -/

/-- Past blanks, comments and line ends. Outside of brackets a key may start on every new
    line, and where one may start a tab is no blank. -/
def skipGap : Nat → Lexer → Lexer
  | 0, lexer => lexer
  | fuel + 1, lexer =>
    let tabs := lexer.flow != 0 || !lexer.keyAllowed
    let cursor := lexer.cursor.skipWhile fun c => c == ' ' || (tabs && c == '\t')
    let cursor :=
      if cursor.peek 0 == some '#' then cursor.skipWhile fun c => !isBreak c else cursor
    if cursor.atBreak then
      -- A new line of a block is a new chance for a key.
      let lexer := lexer.goto cursor.skipBreak
      skipGap fuel (if lexer.flow = 0 then lexer.allowKey true else lexer)
    else lexer.goto cursor

/-- Names of anchors and handles consist of these. -/
def isWord (c : Char) : Bool :=
  (c.isAlphanum || c == '_' || c == '-') && c.toNat < 128

/-- May stand in a tag. Some characters may only do so in one that is written in full. -/
def isTagChar (full : Bool) (c : Char) : Bool :=
  isWord c || [';', '/', '?', ':', '@', '&', '=', '+', '$', '.', '%', '!', '~', '*', '\'', '(',
    ')'].contains c || (full && [',', '[', ']'].contains c)

/-- The word at a place. -/
def wordAt (cursor : Cursor) : List Char := cursor.rest.takeWhile isWord

/-- Ends a line of a directive, which may have a comment. -/
def lineEndAt (cursor : Cursor) : Option Cursor :=
  let cursor := cursor.skipWhile fun c => c == ' ' || c == '\t'
  let cursor :=
    if cursor.peek 0 == some '#' then cursor.skipWhile fun c => !isBreak c else cursor
  if cursor.rest.isEmpty then some cursor
  else if cursor.atBreak then some cursor.skipBreak
  else none

/-- The number at a place, and how many digits it has. -/
def numberAt (cursor : Cursor) : Option (Nat × Cursor) :=
  let digits := cursor.rest.takeWhile Char.isDigit
  -- More than nine digits are refused, whatever their value.
  if 9 < digits.length then none
  else (numeral? 10 digits).map fun n => (n, cursor.skip digits.length)

/-- A directive: the version, or a handle for tags. -/
def directive (lexer : Lexer) : Option Lexer := do
  let lexer ← (lexer.dedentTo (-1)).dropSlot
  let cursor := lexer.cursor.skip 1
  let name := wordAt cursor
  let cursor := (cursor.skip name.length).skipWhile fun c => c == ' ' || c == '\t'
  match String.ofList name with
  | "YAML" =>
    let (major, cursor) ← numberAt cursor
    if cursor.peek 0 != some '.' then none
    let (minor, cursor) ← numberAt (cursor.skip 1)
    return ((lexer.push (.version major minor)).goto (← lineEndAt cursor)).allowKey false
  | "TAG" =>
    if cursor.peek 0 != some '!' then none
    let word := wordAt (cursor.skip 1)
    let behind := cursor.skip (1 + word.length)
    let closed := behind.peek 0 == some '!'
    -- The handle is one mark, or two with or without a word between them.
    if !closed && !word.isEmpty then none
    let handle := '!' :: word ++ (if closed then ['!'] else [])
    let behind := if closed then behind.skip 1 else behind
    if !behind.atBlank then none
    let behind := behind.skipWhile fun c => c == ' ' || c == '\t'
    let uri := behind.rest.takeWhile (isTagChar true)
    if uri.isEmpty || !isGap (behind.peek uri.length) then none
    return ((lexer.push (.tagHandle (String.ofList handle) (String.ofList uri))).goto
      (← lineEndAt (behind.skip uri.length))).allowKey false
  | _ => none

/-- The mark of a document. -/
def documentMark (lexer : Lexer) (token : Token) : Option Lexer := do
  let lexer ← (lexer.dedentTo (-1)).dropSlot
  return ((lexer.push token).goto (lexer.cursor.skip 3)).allowKey false

/-- An opening bracket. -/
def openBracket (lexer : Lexer) (token : Token) : Option Lexer := do
  let lexer ← lexer.leaveSlot
  let lexer := { lexer with slots := none :: lexer.slots, flow := lexer.flow + 1 }
  return ((lexer.push token).goto (lexer.cursor.skip 1)).allowKey true

/-- A closing bracket. -/
def closeBracket (lexer : Lexer) (token : Token) : Option Lexer := do
  let lexer ← lexer.dropSlot
  let lexer :=
    if lexer.flow = 0 then lexer
    else { lexer with slots := lexer.slots.drop 1, flow := lexer.flow - 1 }
  return ((lexer.push token).goto (lexer.cursor.skip 1)).allowKey false

/-- A comma between brackets. -/
def comma (lexer : Lexer) : Option Lexer := do
  let lexer ← lexer.dropSlot
  return ((lexer.push .flowEntry).goto (lexer.cursor.skip 1)).allowKey true

/-- Starts a block collection at this very place, where a key may start. -/
def startBlock (lexer : Lexer) (token : Token) : Option Lexer :=
  if lexer.flow = 0 then
    if lexer.keyAllowed then
      let (tokens, lexer) := lexer.indentTo lexer.cursor.column token
      some { lexer with tokens := lexer.tokens.push tokens }
    else none
  else some lexer

/-- A dash before an item. -/
def dash (lexer : Lexer) : Option Lexer := do
  let lexer ← (← lexer.startBlock .blockSequence).dropSlot
  return ((lexer.push .blockEntry).goto (lexer.cursor.skip 1)).allowKey true

/-- A question mark before a key. -/
def question (lexer : Lexer) : Option Lexer := do
  let lexer ← (← lexer.startBlock .blockMapping).dropSlot
  return ((lexer.push .key).goto (lexer.cursor.skip 1)).allowKey (lexer.flow = 0)

/-- A colon before a value. It fills the slot of its key, if there is one. -/
def colon (lexer : Lexer) : Option Lexer := do
  let lexer ← match lexer.slots with
    | some slot :: rest =>
      -- The mapping starts where its first key does, and so do the tokens.
      let (tokens, lexer) := lexer.indentTo slot.place.column .blockMapping
      let tokens := lexer.tokens.setIfInBounds slot.position (tokens ++ [Token.key])
      some ({ lexer with slots := none :: rest, tokens }.allowKey false)
    -- Without a slot the key is empty, or a question mark has announced it.
    | _ => (lexer.startBlock .blockMapping).map fun lexer => lexer.allowKey (lexer.flow = 0)
  return (lexer.push .value).goto (lexer.cursor.skip 1)

/-- An anchor or an alias. -/
def named (lexer : Lexer) (token : String → Token) : Option Lexer := do
  let lexer ← lexer.leaveSlot
  let cursor := lexer.cursor.skip 1
  let word := wordAt cursor
  let behind := cursor.skip word.length
  let closed := isGap (behind.peek 0)
    || (behind.peek 0).any fun c => ['?', ':', ',', ']', '\x7d', '%', '@', '\u0060'].contains c
  if word.isEmpty || !closed then none
  else return ((lexer.push (token (String.ofList word))).goto behind).allowKey false

/-- A tag: in full between angle brackets, or behind a handle. -/
def tagged (lexer : Lexer) : Option Lexer := do
  let lexer ← lexer.leaveSlot
  let cursor := lexer.cursor
  let (handle, rest, behind) ←
    if cursor.peek 1 == some '<' then
      let inner := cursor.skip 2
      let uri := inner.rest.takeWhile (isTagChar true)
      let behind := inner.skip uri.length
      if uri.isEmpty || behind.peek 0 != some '>' then none else some ([], uri, behind.skip 1)
    else
      let word := wordAt (cursor.skip 1)
      let named := cursor.peek (1 + word.length) == some '!'
      let handle := if named then '!' :: word ++ ['!'] else ['!']
      let inner := cursor.skip handle.length
      let rest := inner.rest.takeWhile (isTagChar false)
      if named && rest.isEmpty then none
      -- A mark alone is a tag by itself, not a handle.
      else if rest.isEmpty then some ([], ['!'], inner)
      else some (handle, rest, inner.skip rest.length)
  if isGap (behind.peek 0) || (lexer.flow != 0 && behind.peek 0 == some ',') then
    let token : Token := .tag (String.ofList handle) (String.ofList rest)
    return ((lexer.push token).goto behind).allowKey false
  else none

/-- A block scalar. -/
def block (lexer : Lexer) (folded : Bool) : Option Lexer := do
  let lexer ← lexer.dropSlot
  let scanned ← blockScalar folded lexer.indent lexer.cursor
  let style : Style := if folded then .folded else .literal
  return ((lexer.push (.scalar style (String.ofList scanned.text))).goto
    scanned.cursor).allowKey true

/-- A scalar in quotes. -/
def quotedText (lexer : Lexer) (quote : Char) (style : Style) : Option Lexer := do
  let lexer ← lexer.leaveSlot
  let scanned ← quotedScalar quote lexer.cursor
  return ((lexer.push (.scalar style (String.ofList scanned.text))).goto
    scanned.cursor).allowKey false

/-- A plain scalar. -/
def plainText (lexer : Lexer) : Option Lexer := do
  let lexer ← lexer.leaveSlot
  let scanned ← plainScalar (lexer.flow != 0) (lexer.indent + 1) lexer.cursor
  return ((lexer.push (.scalar .plain (String.ofList scanned.text))).goto
    scanned.cursor).allowKey scanned.hasLine

/-- May a plain scalar start here? -/
def atPlain (lexer : Lexer) : Bool :=
  match lexer.cursor.peek 0 with
  | none => false
  | some c =>
    let behind := lexer.cursor.peek 1
    if c == '-' then !(behind == some ' ' || behind == some '\t')
    else if c == '?' || c == ':' then lexer.flow = 0 && !isGap behind
    else !(isGap (some c) || isIndicator c)

/-- Reads one more token. `c` is the character ahead. -/
def read (lexer : Lexer) (c : Char) : Option Lexer :=
  let cursor := lexer.cursor
  let inFlow := lexer.flow != 0
  let beforeGap := isGap (cursor.peek 1)
  -- What can only start a line comes first, then brackets, then marks before a gap.
  if cursor.column == 0 && c == '%' then lexer.directive
  else if cursor.atDocumentMark '-' then lexer.documentMark .documentStart
  else if cursor.atDocumentMark '.' then lexer.documentMark .documentEnd
  else if c == '[' then lexer.openBracket .flowSequence
  else if c == '\x7b' then lexer.openBracket .flowMapping
  else if c == ']' then lexer.closeBracket .flowSequenceEnd
  else if c == '\x7d' then lexer.closeBracket .flowMappingEnd
  else if c == ',' then lexer.comma
  else if c == '-' && beforeGap then lexer.dash
  else if c == '?' && (inFlow || beforeGap) then lexer.question
  else if c == ':' && (inFlow || beforeGap) then lexer.colon
  else if c == '*' then lexer.named .alias
  else if c == '&' then lexer.named .anchor
  else if c == '!' then lexer.tagged
  else if c == '|' && !inFlow then lexer.block false
  else if c == '>' && !inFlow then lexer.block true
  else if c == '\'' then lexer.quotedText c .singleQuoted
  else if c == '"' then lexer.quotedText c .doubleQuoted
  else if lexer.atPlain then lexer.plainText
  else none

/-- Reads the rest of the document. -/
def readAll : Nat → Lexer → Option Lexer
  | 0, _ => none
  | fuel + 1, lexer => do
    let lexer ← (lexer.skipGap (lexer.cursor.rest.length + 1)).dropStale
    match lexer.cursor.rest with
    | [] => (lexer.dedentTo (-1)).dropSlot
    | c :: _ => readAll fuel (← (lexer.dedentTo lexer.cursor.column).read c)

end Lexer

/-- May stand in a document at all. -/
def isAllowed (c : Char) : Bool :=
  c == '\t' || c == '\r' || c == '\u0085' || c == '\ufeff' || isPrintable c

/-- The tokens of a document, which may start with a byte order mark. -/
def tokens? (text : String) : Option (List Token) :=
  let chars := match text.toList with
    | '\ufeff' :: rest => rest
    | chars => chars
  if chars.all isAllowed then
    (Lexer.readAll (chars.length + 2) (.start chars)).map fun lexer => lexer.tokens.toList.flatten
  else none

end ChainIndex.Yaml
