import ChainIndex.Yaml.Token

/-!
# The nodes of a YAML document

A document as a tree of scalars, sequences and mappings. A node that was named can be
referred to further on, and stands there again. A name that stands within the node it
names stands for an empty scalar there.

## Main definitions

* `Yaml.Node`: The nodes.
* `Yaml.Stream`: The tokens ahead, and the nodes that have a name.
* `Yaml.Stream.node`: The node ahead.
* `Yaml.Node.ofText?`: The only document of a text.
-/

namespace ChainIndex.Yaml

/-- A node of a document. -/
inductive Node where
  /-- A scalar, with its tag if it has one. -/
  | scalar (style : Style) (tag : Option String) (text : String)
  /-- A sequence. -/
  | sequence (items : List Node)
  /-- A mapping: keys with values, in order. -/
  | mapping (entries : List (Node × Node))

/-- A scalar of which nothing is written. -/
def Node.empty : Node := .scalar .plain none ""

/-- The tokens ahead, and what the document has said before. -/
structure Stream where
  /-- The tokens ahead. -/
  tokens : List Token
  /-- The nodes that have a name, the latest first. -/
  named : List (String × Node)
  /-- What tags behind a handle start with, by handle. -/
  handles : List (String × String)

/-- Reads from a stream, or fails. -/
abbrev Stream.Read (α : Type) := StateT Stream Option α

namespace Stream

/-- The token ahead. -/
def peek : Read (Option Token) := do
  return (← get).tokens.head?

/-- Is one of some tokens ahead, or the end? -/
def isBefore (tokens : List Token) : Read Bool := do
  match ← peek with
  | some token => return tokens.contains token
  | none => return true

/-- Past the token ahead. -/
def skip : Read Unit :=
  modify fun stream => { stream with tokens := stream.tokens.tail }

/-- Past a token that has to be ahead. -/
def expect (token : Token) : Read Unit := do
  if (← peek) = some token then skip else failure

/-- Past a token, if it is ahead. -/
def skipIf (token : Token) : Read Bool := do
  if (← peek) = some token then
    skip
    return true
  else return false

/-- What may be said about a node ahead of it: its name and its tag, in either order. -/
structure Properties where
  /-- The name. -/
  name : Option String
  /-- The tag. -/
  tag : Option String

/-- The tag that a handle and the rest of a tag stand for. -/
def tagOf (handle rest : String) : Read (Option String) := do
  if handle = "" then return some rest
  else
    match ((← get).handles ++ [("!", "!"), ("!!", "tag:yaml.org,2002:")]).lookup handle with
    | some start => return some (start ++ rest)
    | none => failure

/-- The properties ahead. -/
def properties : Read Properties := do
  match ← peek with
  | some (.anchor name) =>
    skip
    match ← peek with
    | some (.tag handle rest) =>
      skip
      return ⟨some name, ← tagOf handle rest⟩
    | _ => return ⟨some name, none⟩
  | some (.tag handle rest) =>
    skip
    let tag ← tagOf handle rest
    match ← peek with
    | some (.anchor name) =>
      skip
      return ⟨some name, tag⟩
    | _ => return ⟨none, tag⟩
  | _ => return ⟨none, none⟩

/-- Gives a node a name, if there is one. -/
def remember (name : Option String) (node : Node) : Read Unit :=
  match name with
  | some name => modify fun stream => { stream with named := (name, node) :: stream.named }
  | none => return

/-- Has anything been said about the node? -/
def Properties.any (properties : Properties) (tagged : Bool) : Bool :=
  properties.name.isSome || tagged

/-- Is there a tag ahead, or behind a name? -/
def isTagged : Read Bool := do
  match (← get).tokens with
  | .tag _ _ :: _ => return true
  | .anchor _ :: .tag _ _ :: _ => return true
  | _ => return false

mutual

/-- The node ahead. In a block, block collections may stand here; as a value or a key in
    a block mapping, also a sequence that is not indented. -/
def node (inBlock inMapping : Bool) : Nat → Read Node
  | 0 => failure
  | fuel + 1 => do
    if let some (.alias name) ← peek then
      skip
      match (← get).named.lookup name with
      | some node => return node
      | none => failure
    let tagged ← isTagged
    let said ← properties
    -- The name is known inside of the node, where it stands for an empty scalar.
    remember said.name .empty
    let node ← match ← peek with
      | some (.scalar style text) => do
        skip
        pure (.scalar style said.tag text)
      | some .flowSequence => do
        skip
        flowItems fuel true []
      | some .flowMapping => do
        skip
        flowEntries fuel true []
      | some .blockEntry =>
        if inMapping then plainItems fuel [] else if said.any tagged then pure .empty else failure
      | some .blockSequence =>
        if inBlock then do
          skip
          blockItems fuel []
        else if said.any tagged then pure .empty else failure
      | some .blockMapping =>
        if inBlock then do
          skip
          blockEntries fuel []
        else if said.any tagged then pure .empty else failure
      | _ => if said.any tagged then pure .empty else failure
    remember said.name node
    return node

/-- The node ahead, or an empty scalar if one of some tokens is. -/
def nodeUnless (tokens : List Token) (inBlock inMapping : Bool) : Nat → Read Node
  | 0 => failure
  | fuel + 1 => do
    if ← isBefore tokens then return .empty else node inBlock inMapping fuel

/-- The items of a block sequence; those before are in reverse. -/
def blockItems : Nat → List Node → Read Node
  | 0, _ => failure
  | fuel + 1, items => do
    if ← skipIf .blockEntry then
      let item ← nodeUnless [.blockEntry, .blockEnd] true false fuel
      blockItems fuel (item :: items)
    else
      expect .blockEnd
      return .sequence items.reverse

/-- The items of a sequence that is not indented. Nothing marks its end. -/
def plainItems : Nat → List Node → Read Node
  | 0, _ => failure
  | fuel + 1, items => do
    if ← skipIf .blockEntry then
      let item ← nodeUnless [.blockEntry, .key, .value, .blockEnd] true false fuel
      plainItems fuel (item :: items)
    else return .sequence items.reverse

/-- The entries of a block mapping. -/
def blockEntries : Nat → List (Node × Node) → Read Node
  | 0, _ => failure
  | fuel + 1, entries => do
    if ← skipIf .key then
      let stops : List Token := [.key, .value, .blockEnd]
      let key ← nodeUnless stops true true fuel
      let value ←
        if ← skipIf .value then nodeUnless stops true true fuel else pure .empty
      blockEntries fuel ((key, value) :: entries)
    else
      expect .blockEnd
      return .mapping entries.reverse

/-- The items of a bracketed sequence. An item that has a key is a mapping of its own. -/
def flowItems : Nat → Bool → List Node → Read Node
  | 0, _, _ => failure
  | fuel + 1, first, items => do
    if ← skipIf .flowSequenceEnd then return .sequence items.reverse
    if !first then expect .flowEntry
    -- A comma may stand behind the last item.
    if ← skipIf .flowSequenceEnd then return .sequence items.reverse
    if ← skipIf .key then
      let stops : List Token := [.value, .flowEntry, .flowSequenceEnd]
      let key ← nodeUnless stops false false fuel
      let value ←
        if ← skipIf .value then nodeUnless [.flowEntry, .flowSequenceEnd] false false fuel
        else pure .empty
      flowItems fuel false (.mapping [(key, value)] :: items)
    else
      let item ← node false false fuel
      flowItems fuel false (item :: items)

/-- The entries of a bracketed mapping. A node that is no key has an empty value. -/
def flowEntries : Nat → Bool → List (Node × Node) → Read Node
  | 0, _, _ => failure
  | fuel + 1, first, entries => do
    if ← skipIf .flowMappingEnd then return .mapping entries.reverse
    if !first then expect .flowEntry
    if ← skipIf .flowMappingEnd then return .mapping entries.reverse
    if ← skipIf .key then
      let stops : List Token := [.value, .flowEntry, .flowMappingEnd]
      let key ← nodeUnless stops false false fuel
      let value ←
        if ← skipIf .value then nodeUnless [.flowEntry, .flowMappingEnd] false false fuel
        else pure .empty
      flowEntries fuel false ((key, value) :: entries)
    else
      let key ← node false false fuel
      flowEntries fuel false ((key, .empty) :: entries)

end

/-- The directives ahead. There is one version at most, one that is known, and each handle
    once; behind any directive the document has to be marked. -/
def directives : Nat → Bool → Read Unit
  | 0, _ => failure
  | fuel + 1, versioned => do
    match ← peek with
    | some (.version major minor) =>
      if versioned || major != 1 || !(minor == 1 || minor == 2) then failure
      skip
      directives fuel true
    | some (.tagHandle handle start) =>
      if ((← get).handles.lookup handle).isSome then failure
      modify fun stream => { stream with handles := (handle, start) :: stream.handles }
      skip
      directives fuel versioned
    | _ => expect .documentStart

/-- Is the document ahead marked at its start? With the mark behind. -/
def isMarked (fuel : Nat) : Read Bool := do
  match ← peek with
  | some (.version _ _) =>
    directives fuel false
    return true
  | some (.tagHandle _ _) =>
    directives fuel false
    return true
  | _ => skipIf .documentStart

/-- The document ahead. One that is marked may be empty, and so may the whole text. -/
def document : Read Node := do
  let fuel := 4 * (← get).tokens.length + 4
  let marked ← isMarked fuel
  match ← peek with
  | none => return .empty
  | some (.version _ _) => failure
  | some (.tagHandle _ _) => failure
  | some .documentStart => if marked then return .empty else failure
  | some .documentEnd => if marked then return .empty else failure
  | some _ => node true false fuel

/-- Past any marks that end a document, up to the end. -/
def finish : Read Unit := do
  if (← get).tokens.all fun token => token = .documentEnd then return else failure

end Stream

/-- The only document of a text. -/
def Node.ofText? (text : String) : Option Node := do
  let tokens ← tokens? text
  let (node, stream) ← Stream.document.run ⟨tokens, [], []⟩
  let ((), _) ← Stream.finish.run stream
  return node

end ChainIndex.Yaml
