import PointsTo.Text.Numeral
import PointsTo.Yaml.Cursor

/-!
# YAML scalars

The text of a scalar in each of its written forms. White space between the words of a scalar is
kept within a line; a single line break between words is one space, and of several breaks all but the
first are kept.
-/

namespace PointsTo.Yaml

/-! ## White space between words -/

/-- White space between two words of a scalar. -/
structure Gap where
  /-- The spaces and tabs before the first line break. -/
  spaces : List Char
  /-- Whether there is a line break. -/
  broken : Bool
  /-- The first line break, if it counts. -/
  first : List Char
  /-- The other line breaks. -/
  others : List Char

namespace Gap

/-- No white space. -/
def none : Gap := ⟨[], false, [], []⟩

/-- What is left of the white space in the text of the scalar. -/
def folded (g : Gap) : List Char :=
  if !g.broken then g.spaces
  else if g.first = ['\n'] then
    if g.others.isEmpty then [' '] else g.others
  else g.first ++ g.others

/-- Reads white space. A tab in a new line left of column `indent` is refused. -/
def read? (indent : Nat) : Nat → Gap → Cursor → Option (Gap × Cursor)
  | 0, g, c => some (g, c)
  | rounds + 1, g, c =>
    match c.peek with
    | .none => some (g, c)
    | some b =>
      if isSpace b then
        if g.broken && b = '\t' && c.column < indent then .none
        else
          let spaces := if g.broken then g.spaces else g.spaces ++ [b]
          read? indent rounds { g with spaces := spaces } (c.skip 1)
      else if isBreak b then
        let (text, c) := c.takeBreak
        if g.broken then read? indent rounds { g with others := g.others ++ text } c
        else read? indent rounds ⟨[], true, text, []⟩ c
      else some (g, c)

end Gap

/-! ## Plain scalars -/

/-- The characters that structure flow collections. -/
def isFlowMark (c : Char) : Bool :=
  c = ',' || c = '[' || c = ']' || c = '{' || c = '}'

/-- The characters of a plain scalar up to white space or to a mark that ends the scalar. -/
def plainWord? (inFlow : Bool) : List Char → Option (List Char)
  | [] => some []
  | c :: rest =>
    if endsWord (some c) then some []
    else if inFlow && c = ':' && rest.head?.any (fun d => isFlowMark d || d = '?') then none
    else if (c = ':' && endsWord rest.head?) || (inFlow && isFlowMark c) then some []
    else (plainWord? inFlow rest).map (c :: ·)

/-- Reads a plain scalar on after some text and white space. Gives the text and whether a line break
follows it. -/
def plainFrom? (inFlow : Bool) (indent : Nat) : Nat → List Char → Gap → Cursor →
    Option (List Char × Bool × Cursor)
  | 0, _, _, _ => none
  | rounds + 1, text, gap, c =>
    if c.atDocumentMark || c.peek = some '#' then some (text, gap.broken, c)
    else do
      let word ← plainWord? inFlow c.rest
      if word.isEmpty then return (text, gap.broken, c)
      let text := text ++ gap.folded ++ word
      let c := c.skip word.length
      if c.peek.isNone || !endsWord c.peek then return (text, false, c)
      let (gap, c) ← Gap.read? indent (c.rest.length + 1) .none c
      if !inFlow && c.column < indent then return (text, gap.broken, c)
      plainFrom? inFlow indent rounds text gap c

/-- Reads a plain scalar whose continuation lines start at column `indent` or right of it. -/
def plain? (inFlow : Bool) (indent : Nat) (c : Cursor) : Option (List Char × Bool × Cursor) :=
  plainFrom? inFlow indent (c.rest.length + 1) [] .none c

/-! ## Quoted scalars -/

/-- The character of an escape sequence of one letter. -/
def escape? : Char → Option Char
  | '0' => some '\x00'
  | 'a' => some '\x07'
  | 'b' => some '\x08'
  | 't' => some '\t'
  | '\t' => some '\t'
  | 'n' => some '\n'
  | 'v' => some '\x0b'
  | 'f' => some '\x0c'
  | 'r' => some '\r'
  | 'e' => some '\x1b'
  | ' ' => some ' '
  | '"' => some '"'
  | '/' => some '/'
  | '\\' => some '\\'
  | 'N' => some '\u0085'
  | '_' => some '\u00a0'
  | 'L' => some '\u2028'
  | 'P' => some '\u2029'
  | _ => none

/-- The number of digits of an escape sequence with a number. -/
def escapeDigits? : Char → Option Nat
  | 'x' => some 2
  | 'u' => some 4
  | 'U' => some 8
  | _ => none

/-- Reads what follows the backslash of an escape sequence. Gives the character and the number of
characters read. -/
def escapeSequence? : List Char → Option (Char × Nat)
  | [] => none
  | c :: rest =>
    match escapeDigits? c with
    | none => (escape? c).map fun d => (d, 1)
    | some n => do
      if rest.length < n then none
      let code ← Text.numeral? 16 (rest.take n)
      if h : code.isValidChar then return (⟨code.toUInt32, by
        rcases h with h | h <;> simp [UInt32.isValidChar, Nat.isValidChar, Nat.toUInt32] <;> omega⟩,
        n + 1)
      else none

/-- The words of a quoted scalar up to white space or the closing quote, the number of characters
read, and whether they end with an escaped line break. -/
def quotedWord? (single : Bool) : Nat → List Char → Option (List Char × Nat × Bool)
  | 0, _ => none
  | _ + 1, [] => some ([], 0, false)
  | rounds + 1, c :: rest => do
    if endsWord (some c) then return ([], 0, false)
    let (text, length, rest) ←
      if single && c = '\'' then
        if rest.head? = some '\'' then some (some '\'', 2, rest.drop 1) else some (none, 0, rest)
      else if !single && c = '"' then some (none, 0, rest)
      else if !single && c = '\\' then
        if rest.head?.any isBreak then some (none, 1, rest)
        else (escapeSequence? rest).map fun (d, n) => (some d, n + 1, rest.drop n)
      else some (some c, 1, rest)
    match text with
    | none => return ([], length, length = 1)
    | some d =>
      let (word, n, broken) ← quotedWord? single rounds rest
      return (d :: word, length + n, broken)

/-- Reads a quoted scalar on after some text, up to and over the closing quote. -/
def quotedFrom? (single : Bool) : Nat → List Char → Cursor → Option (List Char × Cursor)
  | 0, _, _ => none
  | rounds + 1, text, c => do
    if c.atDocumentMark || c.peek.isNone then none
    let (word, length, broken) ← quotedWord? single (c.rest.length + 1) c.rest
    let text := text ++ word
    let c := c.skip length
    if c.peek = some (if single then '\'' else '"') then return (text, c.skip 1)
    let (gap, c) ←
      if broken then Gap.read? 0 (c.rest.length + 1) ⟨[], true, [], []⟩ c.takeBreak.2
      else Gap.read? 0 (c.rest.length + 1) .none c
    quotedFrom? single rounds (text ++ gap.folded) c

/-- Reads a quoted scalar from its opening quote on. -/
def quoted? (single : Bool) (c : Cursor) : Option (List Char × Cursor) :=
  quotedFrom? single (c.rest.length + 1) [] (c.skip 1)

/-! ## Block scalars -/

/-- What is done with the line breaks at the end of a block scalar. -/
inductive Chomping where
  /-- All are dropped. -/
  | strip
  /-- The first is kept. -/
  | clip
  /-- All are kept. -/
  | keep
deriving DecidableEq, Repr

/-- The chomping that a sign stands for. -/
def chomping? : Char → Option Chomping
  | '+' => some .keep
  | '-' => some .strip
  | _ => none

/-- The indentation that a digit stands for. -/
def indentation? (c : Char) : Option Nat :=
  Text.digitIn 10 c

/-- Reads the signs behind the mark of a block scalar, in either order. The indentation may not be
zero. -/
def blockHeader? (c : Cursor) : Option (Chomping × Option Nat × Cursor) := do
  let sign (c : Cursor) := c.peek.bind chomping?
  let digit (c : Cursor) := c.peek.bind indentation?
  let (chomping, indent, c) :=
    match sign c, digit c with
    | some s, _ =>
      match digit (c.skip 1) with
      | some n => (s, some n, c.skip 2)
      | none => (s, none, c.skip 1)
    | none, some n =>
      match sign (c.skip 1) with
      | some s => (s, some n, c.skip 2)
      | none => (.clip, some n, c.skip 1)
    | none, none => (.clip, none, c)
  if indent = some 0 then none
  return (chomping, indent, c)

/-- Reads empty lines up to the next line with text, and the indentation of that line up to column
`indent`. Without `indent` the whole indentation is read, and the greatest column met is given with
the line breaks. A tab in the indentation is refused. -/
def blockBreaks? (indent : Option Nat) : Nat → Nat → List Char → Cursor →
    Option (Nat × List Char × Cursor)
  | 0, _, _, _ => none
  | rounds + 1, widest, breaks, c => do
    let blanks := (c.rest.takeWhile (· = ' ')).length
    let c := c.skip (match indent with
      | none => blanks
      | some n => min blanks (n - c.column))
    let widest := max widest c.column
    let inside := match indent with
      | none => true
      | some n => c.column < n
    if inside && c.peek = some '\t' then none
    if c.peek.any isBreak then
      let (text, c) := c.takeBreak
      blockBreaks? indent rounds widest (breaks ++ text) c
    else return (widest, breaks, c)

/-- A block scalar being read. -/
structure BlockText where
  text : List Char
  /-- The line break after the last line. -/
  first : List Char
  /-- The breaks of the empty lines after it. -/
  others : List Char
  /-- Whether the last line starts with white space. -/
  indented : Bool

namespace BlockText

/-- The text with the breaks before a new line. In a folded scalar a single break between lines that
do not start with white space is a space. -/
def joined (b : BlockText) (folding indented : Bool) : List Char :=
  if folding && b.first = ['\n'] && !b.indented && !indented then
    b.text ++ (if b.others.isEmpty then [' '] else b.others)
  else b.text ++ b.first ++ b.others

/-- The text with the breaks at its end that are kept. -/
def chomped (b : BlockText) : Chomping → List Char
  | .strip => b.text
  | .clip => b.text ++ b.first
  | .keep => b.text ++ b.first ++ b.others

end BlockText

/-- Reads the lines of a block scalar that start at column `indent`. -/
def blockLines? (folding : Bool) (indent : Nat) : Nat → BlockText → Cursor →
    Option (BlockText × Cursor)
  | 0, _, _ => none
  | rounds + 1, b, c =>
    if c.column ≠ indent || c.peek.isNone then some (b, c)
    else do
      let indented := c.peek.any isSpace
      let (line, c') := c.takeWhile (!isBreak ·)
      let text := b.joined folding indented ++ line
      let (first, c') := c'.takeBreak
      let (_, others, c') ← blockBreaks? (some indent) (c'.rest.length + 1) 0 [] c'
      blockLines? folding indent rounds ⟨text, first, others, indented⟩ c'

/-- Reads a block scalar from its mark on, inside a block at column `parent`. -/
def block? (folding : Bool) (parent : Int) (c : Cursor) : Option (List Char × Cursor) := do
  let (chomping, increment, c) ← blockHeader? (c.skip 1)
  let c ← c.finishLine?
  let given := increment.map fun n => (max parent 0).toNat + n
  let (widest, breaks, c) ← blockBreaks? given (c.rest.length + 1) 0 [] c
  let indent := given.getD (max (max widest (parent + 1).toNat) 1)
  let (b, c) ← blockLines? folding indent (c.rest.length + 1) ⟨[], [], breaks, false⟩ c
  return (b.chomped chomping, c)

end PointsTo.Yaml
