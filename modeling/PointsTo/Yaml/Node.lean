import PointsTo.Yaml.Lexer

/-!
# YAML documents

The nodes of a document: scalars, sequences and mappings, and aliases of nodes with an anchor. A text
holds at most one document. An alias names a slot; the slot of an anchor is the number of different
anchor names before it, and what an alias stands for is the node of its slot that starts last.
-/

namespace PointsTo.Yaml

/-- A node of a document. -/
inductive Node where
  | scalar (tag : Option String) (style : ScalarStyle) (text : String)
  | sequence (items : List Node)
  | mapping (entries : List (Node × Node))
  | alias (slot : Nat)
deriving Repr

/-- A document. -/
structure Document where
  /-- The outermost node; none if the text has no document. -/
  root : Option Node
  /-- The nodes with an anchor by their slots, the one that starts last first. -/
  slots : List (Nat × Node)

namespace Node

/-- What a node can be that is not written. -/
def empty : Node := .scalar none .plain ""

/-- Tokens on their way to nodes. -/
structure Reader where
  tokens : List Token
  /-- The prefixes that tag handles stand for. -/
  handles : List (String × String)
  /-- The slot of each anchor name. -/
  names : List (String × Nat)
  slots : List (Nat × Node)

/-- Reads nodes off tokens. -/
abbrev Read := StateT Reader Option

/-- The next token. -/
def peek : Read (Option Token) := do
  return (← get).tokens.head?

/-- Whether the next token is a certain one. -/
def next (t : Token) : Read Bool := do
  return (← peek) = some t

/-- Moves over the next token. -/
def skip : Read Unit :=
  modify fun r => { r with tokens := r.tokens.tail }

/-- Moves over a certain token, which has to come next. -/
def expect (t : Token) : Read Unit := do
  if ← next t then skip else failure

/-- Whether the next token is one of some, or there is none. -/
def nextAmong (ts : List Token) : Read Bool := do
  match ← peek with
  | some t => return t ∈ ts
  | none => return false

/-- The slot of an anchor name, which becomes the slot of this name from here on. -/
def newSlot (name : String) : Read Nat := do
  let r ← get
  let slot := r.names.length
  set { r with names := (name, slot) :: r.names.filter (·.1 ≠ name) }
  return slot

/-- Puts the node that is read into a slot. The nodes inside it start later and keep their slots. -/
def fill (slot : Option Nat) (node : Read Node) : Read Node := do
  match slot with
  | none => node
  | some i =>
    let before := (← get).slots
    modify fun r => { r with slots := [] }
    let n ← node
    modify fun r => { r with slots := r.slots ++ (i, n) :: before }
    return n

/-- The tag that a handle and the rest stand for. -/
def resolveTag (handle suffix : String) : Read String := do
  if handle.isEmpty then return suffix
  match (← get).handles.lookup handle with
  | some start => return start ++ suffix
  | none => failure

/-- Reads an anchor, if there is one. -/
def anchor? : Read (Option String) := do
  match ← peek with
  | some (.anchor name) =>
    skip
    return some name
  | _ => return none

/-- Reads a tag, if there is one. -/
def tag? : Read (Option (String × String)) := do
  match ← peek with
  | some (.tag handle suffix) =>
    skip
    return some (handle, suffix)
  | _ => return none

/-- Reads an anchor and a tag in either order, if there are any. -/
def properties : Read (Option String × Option String) := do
  let anchor ← anchor?
  let tag ← tag?
  let anchor ← if anchor.isNone then anchor? else pure anchor
  match tag with
  | none => return (anchor, none)
  | some (handle, suffix) => return (anchor, some (← resolveTag handle suffix))

mutual

/-- Reads a node. Blocks may start here only if `block` holds, and a sequence that is not indented
only if `indentless` does. -/
def read (rounds : Nat) (block indentless : Bool) : Read Node := do
  match rounds with
  | 0 => failure
  | rounds + 1 =>
    match ← peek with
    | some (.alias name) =>
      skip
      match (← get).names.lookup name with
      | some slot => return .alias slot
      | none => failure
    | _ =>
      let (anchor, tag) ← properties
      let slot ← anchor.mapM newSlot
      fill slot (readContent rounds block indentless tag (anchor.isSome || tag.isSome))

/-- Reads a node behind its anchor and tag. With one of these, the node itself may be left out. -/
def readContent (rounds : Nat) (block indentless : Bool) (tag : Option String) (optional : Bool) :
    Read Node := do
  match rounds with
  | 0 => failure
  | rounds + 1 =>
    match ← peek with
    | some (.scalar style text) =>
      skip
      return .scalar tag style text
    | some .flowSequenceStart =>
      skip
      return .sequence (← readFlowItems rounds true)
    | some .flowMappingStart =>
      skip
      return .mapping (← readFlowEntries rounds true)
    | t =>
      if t = some .blockEntry && indentless then
        return .sequence (← readBlockItems rounds)
      else if t = some .blockSequenceStart && block then
        skip
        let items ← readBlockItems rounds
        expect .blockEnd
        return .sequence items
      else if t = some .blockMappingStart && block then
        skip
        let entries ← readBlockEntries rounds
        expect .blockEnd
        return .mapping entries
      else if optional then return .scalar tag .plain ""
      else failure

/-- Reads the items of a block sequence. -/
def readBlockItems (rounds : Nat) : Read (List Node) := do
  match rounds with
  | 0 => failure
  | rounds + 1 =>
    if ← next .blockEntry then
      skip
      let item ← readUnless rounds [.blockEntry, .key, .value, .blockEnd] true false
      return item :: (← readBlockItems rounds)
    else return []

/-- Reads the entries of a block mapping. -/
def readBlockEntries (rounds : Nat) : Read (List (Node × Node)) := do
  match rounds with
  | 0 => failure
  | rounds + 1 =>
    if ← next .key then
      skip
      let key ← readUnless rounds [.key, .value, .blockEnd] true true
      let value ← readValue rounds [.key, .value, .blockEnd] true
      return (key, value) :: (← readBlockEntries rounds)
    else return []

/-- Reads the items of a flow sequence and its end. An item may be a mapping of one entry. -/
def readFlowItems (rounds : Nat) (first : Bool) : Read (List Node) := do
  match rounds with
  | 0 => failure
  | rounds + 1 =>
    if ← next .flowSequenceEnd then
      skip
      return []
    if !first then expect .flowEntry
    if ← next .flowSequenceEnd then
      skip
      return []
    if ← next .key then
      skip
      let key ← readUnless rounds [.value, .flowEntry, .flowSequenceEnd] false false
      let value ← readValue rounds [.flowEntry, .flowSequenceEnd] false
      return .mapping [(key, value)] :: (← readFlowItems rounds false)
    let item ← read rounds false false
    return item :: (← readFlowItems rounds false)

/-- Reads the entries of a flow mapping and its end. A key without a value may stand alone. -/
def readFlowEntries (rounds : Nat) (first : Bool) : Read (List (Node × Node)) := do
  match rounds with
  | 0 => failure
  | rounds + 1 =>
    if ← next .flowMappingEnd then
      skip
      return []
    if !first then expect .flowEntry
    if ← next .flowMappingEnd then
      skip
      return []
    if ← next .key then
      skip
      let key ← readUnless rounds [.value, .flowEntry, .flowMappingEnd] false false
      let value ← readValue rounds [.flowEntry, .flowMappingEnd] false
      return (key, value) :: (← readFlowEntries rounds false)
    let key ← read rounds false false
    return (key, empty) :: (← readFlowEntries rounds false)

/-- Reads a value behind its mark; without the mark, or with one of some tokens behind it, the value
is left out. -/
def readValue (rounds : Nat) (ends : List Token) (block : Bool) : Read Node := do
  match rounds with
  | 0 => failure
  | rounds + 1 =>
    if ← next .value then
      skip
      readUnless rounds ends block block
    else return empty

/-- Reads a node, which is left out if one of some tokens comes next. -/
def readUnless (rounds : Nat) (ends : List Token) (block indentless : Bool) : Read Node := do
  match rounds with
  | 0 => failure
  | rounds + 1 => if ← nextAmong ends then return empty else read rounds block indentless

end

/-! ## Documents -/

/-- What the directives of a document declare so far. -/
structure Directives where
  version : Bool
  handles : List (String × String)

/-- Reads the directives of a document. A directive may not be repeated, and the version has to be
1.1 or 1.2. -/
def directives : Nat → Directives → Read Directives
  | 0, _ => failure
  | rounds + 1, d => do
    match ← peek with
    | some (.versionDirective major minor) =>
      skip
      if d.version || major ≠ 1 || (minor ≠ 1 && minor ≠ 2) then failure
      directives rounds { d with version := true }
    | some (.tagDirective handle start) =>
      skip
      if (d.handles.lookup handle).isSome then failure
      directives rounds { d with handles := (handle, start) :: d.handles }
    | _ => return d

/-- The handles that need not be declared. -/
def defaultHandles : List (String × String) :=
  [("!", "!"), ("!!", "tag:yaml.org,2002:")]

/-- Moves over the marks at the end of a document. -/
def skipDocumentEnds : Nat → Read Unit
  | 0 => failure
  | rounds + 1 => do
    if ← next .documentEnd then
      skip
      skipDocumentEnds rounds

/-- Reads the node of a document that starts with directives or with its mark. -/
def readMarked (rounds : Nat) : Read Node := do
  let d ← directives rounds ⟨false, []⟩
  expect .documentStart
  modify fun r => { r with handles := d.handles ++ defaultHandles }
  if (← peek).isNone then return empty
  match ← peek with
  | some (.versionDirective _ _) | some (.tagDirective _ _) => return empty
  | _ => readUnless rounds [.documentStart, .documentEnd] true false

/-- Reads a document and the end of the text. -/
def readDocument (rounds : Nat) : Read Document := do
  let root ← match ← peek with
    | none => pure none
    | some .documentStart | some (.versionDirective _ _) | some (.tagDirective _ _) =>
      some <$> readMarked rounds
    | some _ => some <$> read rounds true false
  skipDocumentEnds rounds
  if (← peek).isSome then failure
  return ⟨root, (← get).slots⟩

end Node

/-- The document of a text, unless the text is not YAML or has several documents. Every round of
reading takes a token or ends a node that is left out, so that a few rounds for each token are
enough. -/
def Document.parse? (text : String) : Option Document := do
  let tokens ← tokens? text
  let reader : Node.Reader := ⟨tokens.toList, Node.defaultHandles, [], []⟩
  return (← (Node.readDocument (4 * tokens.size + 8)).run reader).1

namespace Document

/-- A node, or what it is an alias of. -/
def follow? (d : Document) : Node → Option Node
  | .alias slot => d.slots.lookup slot
  | n => some n

end Document

end PointsTo.Yaml
