/-!
# Reading YAML text

The characters that YAML distinguishes, and positions in a text. A cursor holds the text that is
still to be read with its distance from the start, its line and its column; columns count characters.
-/

namespace PointsTo.Yaml

/-! ## Characters -/

/-- Whether a character may stand in a document at all. -/
def isAllowed (c : Char) : Bool :=
  let n := c.toNat
  n = 0x9 || n = 0xA || n = 0xD || (0x20 ≤ n && n ≤ 0x7E) || n = 0x85 || (0xA0 ≤ n && n ≤ 0xD7FF) ||
    (0xE000 ≤ n && n ≤ 0xFFFD) || 0x10000 ≤ n

/-- Whether a character ends a line. -/
def isBreak (c : Char) : Bool :=
  c = '\n' || c = '\r' || c = '\u0085' || c = '\u2028' || c = '\u2029'

/-- Whether a character separates words of a line. -/
def isSpace (c : Char) : Bool :=
  c = ' ' || c = '\t'

/-- Whether a character may stand in a name. -/
def isWord (c : Char) : Bool :=
  c.isAlphanum || c = '_' || c = '-'

/-- Whether a line is over. -/
def endsLine : Option Char → Bool
  | none => true
  | some c => isBreak c

/-- Whether a word is over. -/
def endsWord : Option Char → Bool
  | none => true
  | some c => isSpace c || isBreak c

/-! ## Cursors -/

/-- A position in a text. -/
structure Cursor where
  /-- The text from here on. -/
  rest : List Char
  index : Nat
  line : Nat
  column : Nat

namespace Cursor

/-- The start of a text. -/
def start (text : List Char) : Cursor := ⟨text, 0, 0, 0⟩

/-- The next character. -/
def peek (c : Cursor) : Option Char :=
  c.rest.head?

/-- The character some way ahead. -/
def peekAt (c : Cursor) (n : Nat) : Option Char :=
  c.rest[n]?

/-- Moves over characters of one line. -/
def skip (c : Cursor) (n : Nat) : Cursor :=
  { c with rest := c.rest.drop n, index := c.index + n, column := c.column + n }

/-- Takes characters of one line as long as they are of a class. -/
def takeWhile (c : Cursor) (p : Char → Bool) : List Char × Cursor :=
  let taken := c.rest.takeWhile p
  (taken, c.skip taken.length)

/-- Moves over characters of one line as long as they are of a class. -/
def skipWhile (c : Cursor) (p : Char → Bool) : Cursor :=
  (c.takeWhile p).2

/-- Moves to the start of the next line, over `n` characters. -/
private def nextLine (c : Cursor) (n : Nat) : Cursor :=
  ⟨c.rest.drop n, c.index + n, c.line + 1, 0⟩

/-- Takes a line break. Every break but the separators of lines and paragraphs counts as a line
feed. At any other character there is nothing to take. -/
def takeBreak (c : Cursor) : List Char × Cursor :=
  match c.rest with
  | '\r' :: '\n' :: _ => (['\n'], c.nextLine 2)
  | b :: _ =>
    if b = '\n' || b = '\r' || b = '\u0085' then (['\n'], c.nextLine 1)
    else if isBreak b then ([b], c.nextLine 1)
    else ([], c)
  | [] => ([], c)

/-- Moves over a comment, if there is one here, to the end of the line. -/
def skipComment (c : Cursor) : Cursor :=
  if c.peek = some '#' then c.skipWhile (!isBreak ·) else c

/-- Moves over the rest of a line that has nothing left but a comment, and over the line break. -/
def finishLine? (c : Cursor) : Option Cursor :=
  let c := (c.skipWhile isSpace).skipComment
  if endsLine c.peek then some c.takeBreak.2 else none

/-- Whether a mark of three equal characters stands alone at the start of this line. -/
def atMark (c : Cursor) (mark : Char) : Bool :=
  c.column = 0 && c.peek = some mark && c.peekAt 1 = some mark && c.peekAt 2 = some mark &&
    endsWord (c.peekAt 3)

/-- Whether the mark of a document start or end stands here. -/
def atDocumentMark (c : Cursor) : Bool :=
  c.atMark '-' || c.atMark '.'

end Cursor

end PointsTo.Yaml
