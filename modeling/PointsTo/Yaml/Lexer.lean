import PointsTo.Yaml.Scalar
import PointsTo.Yaml.Token

/-!
# From YAML text to tokens

Tokens are read from left to right. A lexer keeps the columns of the open blocks and closes those
that a line does not reach. It also remembers, for the current block and for every open flow
collection, the place where a key may have started: when a value mark follows on the same line, the
token of the key is put in there, and with it the start of a block if the key opens one. Text that
cannot be read gives nothing.
-/

namespace PointsTo.Yaml

/-- A place where a key may have started. -/
structure KeyStart where
  /-- Whether there must be a key, because nothing else can start in this column. -/
  required : Bool
  /-- The number of tokens before the key. -/
  token : Nat
  index : Nat
  line : Nat
  column : Nat

/-- A text that has been read up to a cursor. -/
structure Lexer where
  cursor : Cursor
  tokens : Array Token
  /-- The column of the innermost open block; negative outside of all blocks. -/
  indent : Int
  /-- The columns of the blocks around it, the innermost first. -/
  indents : List Int
  /-- Whether a key may start at the cursor. -/
  keyAllowed : Bool
  /-- The possible start of a key on the current level. -/
  key : Option KeyStart
  /-- The possible starts of keys on the levels around it, a level for each open flow collection. -/
  outerKeys : List (Option KeyStart)

namespace Lexer

/-- The lexer at the start of a text. -/
def start (text : List Char) : Lexer :=
  ⟨.start text, #[], -1, [], true, none, []⟩

/-- Whether a flow collection is open. -/
def inFlow (l : Lexer) : Bool :=
  !l.outerKeys.isEmpty

/-- Adds a token. -/
def emit (l : Lexer) (t : Token) : Lexer :=
  { l with tokens := l.tokens.push t }

/-- Puts a token in front of the token at a position. -/
def emitAt (l : Lexer) (i : Nat) (t : Token) : Lexer :=
  { l with tokens := (l.tokens.extract 0 i).push t ++ l.tokens.extract i l.tokens.size }

/-- Adds a token of some characters and moves over them. -/
def emitMark (l : Lexer) (t : Token) (length : Nat) : Lexer :=
  { l.emit t with cursor := l.cursor.skip length }

/-! ## Blocks -/

/-- Opens a block at a column right of the open blocks, with its token at a position. -/
def openBlock (l : Lexer) (column : Nat) (position : Nat) (t : Token) : Lexer :=
  if !l.inFlow && l.indent < column then
    { l.emitAt position t with indent := column, indents := l.indent :: l.indents }
  else l

/-- Closes blocks right of a column, given the columns around the innermost one. -/
def closeBlocksAmong (column : Int) : List Int → Lexer → Lexer
  | [], l => l
  | outer :: indents, l =>
    if column < l.indent then
      closeBlocksAmong column indents { l.emit .blockEnd with indent := outer, indents := indents }
    else l

/-- Closes the blocks right of a column. -/
def closeBlocks (l : Lexer) (column : Int) : Lexer :=
  if l.inFlow then l else closeBlocksAmong column l.indents l

/-! ## Keys -/

/-- Gives up a possible start of a key. One that is required cannot be given up. -/
def forget? : Option KeyStart → Option (Option KeyStart)
  | some k => if k.required then none else some none
  | none => some none

/-- Gives up the possible start of a key on the current level. -/
def forgetKey? (l : Lexer) : Option Lexer := do
  return { l with key := ← forget? l.key }

/-- Remembers the cursor as a possible start of a key, if one may start there. -/
def rememberKey? (l : Lexer) : Option Lexer :=
  if l.keyAllowed then do
    let l ← l.forgetKey?
    let c := l.cursor
    let required := !l.inFlow && l.indent = c.column
    return { l with key := some ⟨required, l.tokens.size, c.index, c.line, c.column⟩ }
  else some l

/-- Gives up a possible start of a key that is on an earlier line or too far back. -/
def expire? (c : Cursor) (key : Option KeyStart) : Option (Option KeyStart) :=
  match key with
  | some k => if k.line < c.line || k.index + 1024 < c.index then forget? key else some key
  | none => some none

/-- Gives up all starts of keys that are too far back. -/
def expireKeys? (l : Lexer) : Option Lexer := do
  return { l with
    key := ← expire? l.cursor l.key
    outerKeys := ← l.outerKeys.mapM (expire? l.cursor) }

/-! ## White space -/

/-- Moves over white space, comments and line breaks. A tab counts as white space where no key may
start, and a byte order mark where a line starts. A new line of a block may start a key. -/
def skipSpace : Nat → Lexer → Lexer
  | 0, l => l
  | rounds + 1, l =>
    let c := l.cursor
    let c := if c.column = 0 && c.peek = some '\uFEFF' then c.skip 1 else c
    let c := c.skipWhile fun d => d = ' ' || (d = '\t' && (l.inFlow || !l.keyAllowed))
    let c := c.skipComment
    if c.peek.any isBreak then
      skipSpace rounds { l with cursor := c.takeBreak.2, keyAllowed := l.keyAllowed || !l.inFlow }
    else { l with cursor := c }

/-! ## Names, tags and directives -/

/-- Reads an anchor or an alias. -/
def name? (c : Cursor) : Option (String × Cursor) :=
  let (name, c) := (c.skip 1).takeWhile isWord
  let ends := match c.peek with
    | some d => endsWord (some d) || "?:,]\x7d%@`".toList.contains d
    | none => true
  if name.isEmpty || !ends then none else some (String.ofList name, c)

/-- Whether a character may stand in a tag. -/
def isTagChar (verbatim : Bool) (c : Char) : Bool :=
  isWord c || ";/?:@&=+$.%!~*'()".toList.contains c || (verbatim && ",[]".toList.contains c)

/-- The value of an octet written as a percent sign and two digits. -/
def octet? : List Char → Option Nat
  | '%' :: a :: b :: _ => Text.numeral? 16 [a, b]
  | _ => none

/-- The number of octets of a character by the first of them. -/
def octetCount? (first : Nat) : Option Nat :=
  if first < 0x80 then some 1
  else if first < 0xC0 then none
  else if first < 0xE0 then some 2
  else if first < 0xF0 then some 3
  else if first < 0xF8 then some 4
  else none

/-- Whether some octets that follow the first of a character are written here. -/
def moreOctets : Nat → List Char → Bool
  | 0, _ => true
  | n + 1, l =>
    match octet? l with
    | some o => 0x80 ≤ o && o < 0xC0 && moreOctets n (l.drop 3)
    | none => false

/-- The characters of a tag with its escapes read, and their written length. An escaped character
beyond ASCII counts as a question mark: no tag that matters has one. -/
def tagText? (verbatim : Bool) : Nat → List Char → Option (List Char × Nat)
  | 0, _ => none
  | _ + 1, [] => some ([], 0)
  | rounds + 1, c :: rest =>
    if c = '%' then do
      let first ← octet? (c :: rest)
      let count ← octetCount? first
      if !moreOctets (count - 1) (rest.drop 2) then none
      let (text, length) ← tagText? verbatim rounds ((c :: rest).drop (3 * count))
      return ((if count = 1 then Char.ofNat first else '?') :: text, length + 3 * count)
    else if isTagChar verbatim c then do
      let (text, length) ← tagText? verbatim rounds rest
      return (c :: text, length + 1)
    else some ([], 0)

/-- Reads the text of a tag, which is over at an escaped NUL whatever is written behind it. -/
def tagFrom? (verbatim : Bool) (c : Cursor) : Option (List Char × Cursor) := do
  let (text, length) ← tagText? verbatim (c.rest.length + 1) c.rest
  return (text.takeWhile (· ≠ '\x00'), c.skip length)

/-- Reads the text of a tag, of which something has to be written. -/
def someTagFrom? (verbatim : Bool) (c : Cursor) : Option (List Char × Cursor) := do
  let (text, behind) ← tagFrom? verbatim c
  if behind.index = c.index then none else return (text, behind)

/-- Reads an exclamation mark, the word behind it and a second exclamation mark if there is one. -/
def handle? (c : Cursor) : Option (List Char × Cursor) := do
  if c.peek ≠ some '!' then none
  let (word, c) := (c.skip 1).takeWhile isWord
  if c.peek = some '!' then return ('!' :: word ++ ['!'], c.skip 1)
  return ('!' :: word, c)

/-- Reads a tag that is not verbatim, as its handle and the rest. -/
def shorthand? (c : Cursor) : Option (Token × Cursor) := do
  let (handle, c) ← handle? c
  if 1 < handle.length && handle.getLast? = some '!' then
    let (suffix, c) ← someTagFrom? false c
    return (.tag (String.ofList handle) (String.ofList suffix), c)
  let (suffix, c) ← tagFrom? false c
  let suffix := handle.drop 1 ++ suffix
  if suffix.isEmpty then return (.tag "" "!", c)
  return (.tag "!" (String.ofList suffix), c)

/-- Reads a tag between angle brackets. -/
def verbatim? (c : Cursor) : Option (Token × Cursor) := do
  let (suffix, c) ← someTagFrom? true (c.skip 2)
  if c.peek ≠ some '>' then none
  return (.tag "" (String.ofList suffix), c.skip 1)

/-- Reads a tag, which has to be followed by white space. -/
def tag? (inFlow : Bool) (c : Cursor) : Option (Token × Cursor) := do
  let (t, c) ← if c.peekAt 1 = some '<' then verbatim? c else shorthand? c
  if endsWord c.peek || (inFlow && c.peek = some ',') then return (t, c) else none

/-- Reads a number of a version. -/
def versionNumber? (c : Cursor) : Option (Nat × Cursor) := do
  let (digits, c) := c.takeWhile Char.isDigit
  if 9 < digits.length then none
  return (← Text.numeral? 10 digits, c)

/-- Reads a directive from its percent sign to the end of its line. -/
def directive? (c : Cursor) : Option (Token × Cursor) := do
  let (name, c) := (c.skip 1).takeWhile isWord
  if !endsWord c.peek then none
  let c := c.skipWhile isSpace
  if String.ofList name = "YAML" then
    let (major, c) ← versionNumber? c
    if c.peek ≠ some '.' then none
    let (minor, c) ← versionNumber? (c.skip 1)
    return (.versionDirective major minor, ← c.finishLine?)
  else if String.ofList name = "TAG" then
    let (handle, c) ← handle? c
    if handle ≠ ['!'] && handle.getLast? ≠ some '!' then none
    if !c.peek.any isSpace then none
    let (start, c) ← someTagFrom? true (c.skipWhile isSpace)
    if !endsWord c.peek then none
    return (.tagDirective (String.ofList handle) (String.ofList start), ← c.finishLine?)
  else none

/-! ## Tokens -/

/-- Ends all blocks at a mark or a directive of a document. -/
def leaveDocument? (l : Lexer) : Option Lexer := do
  let l ← (l.closeBlocks (-1)).forgetKey?
  return { l with keyAllowed := false }

/-- Adds a token that was read from the cursor on, and goes on behind it. -/
def emitRead (l : Lexer) (read : Token × Cursor) : Lexer :=
  { l.emit read.1 with cursor := read.2 }

/-- Opens a flow collection. -/
def openFlow? (l : Lexer) (t : Token) : Option Lexer := do
  let l ← l.rememberKey?
  return { l.emitMark t 1 with keyAllowed := true, key := none, outerKeys := l.key :: l.outerKeys }

/-- Closes a flow collection. -/
def closeFlow? (l : Lexer) (t : Token) : Option Lexer := do
  let l ← l.forgetKey?
  let l := { l.emitMark t 1 with keyAllowed := false }
  match l.outerKeys with
  | key :: outerKeys => return { l with key := key, outerKeys := outerKeys }
  | [] => return l

/-- Reads the mark of an item of a block sequence. -/
def blockEntry? (l : Lexer) : Option Lexer := do
  if !l.inFlow && !l.keyAllowed then none
  let l := l.openBlock l.cursor.column l.tokens.size .blockSequenceStart
  let l ← l.forgetKey?
  return { l.emitMark .blockEntry 1 with keyAllowed := true }

/-- Reads the mark of a key. -/
def keyMark? (l : Lexer) : Option Lexer := do
  if !l.inFlow && !l.keyAllowed then none
  let l := l.openBlock l.cursor.column l.tokens.size .blockMappingStart
  let l ← l.forgetKey?
  return { l.emitMark .key 1 with keyAllowed := !l.inFlow }

/-- Reads the mark of a value. If a key may have started on this level, it has. -/
def valueMark? (l : Lexer) : Option Lexer :=
  match l.key with
  | some k =>
    let l := (l.emitAt k.token .key).openBlock k.column k.token .blockMappingStart
    some { l.emitMark .value 1 with key := none, keyAllowed := false }
  | none => do
    if !l.inFlow && !l.keyAllowed then none
    let l := l.openBlock l.cursor.column l.tokens.size .blockMappingStart
    return { l.emitMark .value 1 with keyAllowed := !l.inFlow }

/-- Reads an anchor or an alias. -/
def named? (l : Lexer) (t : String → Token) : Option Lexer := do
  let l ← l.rememberKey?
  let (name, c) ← name? l.cursor
  return { l.emitRead (t name, c) with keyAllowed := false }

/-- Reads a tag. -/
def tagged? (l : Lexer) : Option Lexer := do
  let l ← l.rememberKey?
  return { l.emitRead (← tag? l.inFlow l.cursor) with keyAllowed := false }

/-- Reads a block scalar. -/
def blockScalar? (l : Lexer) (style : ScalarStyle) : Option Lexer := do
  let l ← l.forgetKey?
  let (text, c) ← block? (style = .folded) l.indent l.cursor
  return { l.emitRead (.scalar style (String.ofList text), c) with keyAllowed := true }

/-- Reads a quoted scalar. -/
def quotedScalar? (l : Lexer) (style : ScalarStyle) : Option Lexer := do
  let l ← l.rememberKey?
  let (text, c) ← quoted? (style = .singleQuoted) l.cursor
  return { l.emitRead (.scalar style (String.ofList text), c) with keyAllowed := false }

/-- Reads a plain scalar. -/
def plainScalar? (l : Lexer) : Option Lexer := do
  let l ← l.rememberKey?
  let (text, broken, c) ← plain? l.inFlow (l.indent + 1).toNat l.cursor
  return { l.emitRead (.scalar .plain (String.ofList text), c) with keyAllowed := broken }

/-- Whether a plain scalar can start with a character, given the character behind it. -/
def startsPlain (inFlow : Bool) (c : Char) (next : Option Char) : Bool :=
  !(endsWord (some c) || "-?:,[]\x7b\x7d#&*!|>'\"%@`".toList.contains c) ||
    (c = '-' && !next.any isSpace) ||
    (!inFlow && (c = '?' || c = ':') && !endsWord next)

/-- Reads the token that starts with a character. -/
def token? (l : Lexer) (c : Char) : Option Lexer :=
  let next := l.cursor.peekAt 1
  let spaced := endsWord next
  if c = '%' && l.cursor.column = 0 then do
    let l ← l.leaveDocument?
    return l.emitRead (← directive? l.cursor)
  else if l.cursor.atMark '-' then do return (← l.leaveDocument?).emitMark .documentStart 3
  else if l.cursor.atMark '.' then do return (← l.leaveDocument?).emitMark .documentEnd 3
  else if c = '[' then l.openFlow? .flowSequenceStart
  else if c = '{' then l.openFlow? .flowMappingStart
  else if c = ']' then l.closeFlow? .flowSequenceEnd
  else if c = '}' then l.closeFlow? .flowMappingEnd
  else if c = ',' then do
    let l ← l.forgetKey?
    return { l.emitMark .flowEntry 1 with keyAllowed := true }
  else if c = '-' && spaced then l.blockEntry?
  else if c = '?' && (l.inFlow || spaced) then l.keyMark?
  else if c = ':' && (l.inFlow || spaced) then l.valueMark?
  else if c = '*' then l.named? .alias
  else if c = '&' then l.named? .anchor
  else if c = '!' then l.tagged?
  else if c = '|' && !l.inFlow then l.blockScalar? .literal
  else if c = '>' && !l.inFlow then l.blockScalar? .folded
  else if c = '\'' then l.quotedScalar? .singleQuoted
  else if c = '"' then l.quotedScalar? .doubleQuoted
  else if startsPlain l.inFlow c next then l.plainScalar?
  else none

/-- Reads tokens to the end of the text. -/
def run? : Nat → Lexer → Option Lexer
  | 0, _ => none
  | rounds + 1, l => do
    let l ← (skipSpace (l.cursor.rest.length + 1) l).expireKeys?
    let l := l.closeBlocks l.cursor.column
    match l.cursor.peek with
    | none => l.leaveDocument?
    | some c => run? rounds (← l.token? c)

end Lexer

/-- The tokens of a text. -/
def tokens? (text : String) : Option (Array Token) := do
  if !text.toList.all isAllowed then none
  return (← Lexer.run? (text.length + 1) (.start text.toList)).tokens

end PointsTo.Yaml
