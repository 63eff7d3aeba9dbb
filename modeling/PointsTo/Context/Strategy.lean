import PointsTo.Text.Blank
import PointsTo.Text.Lowercase
import PointsTo.Text.Numeral

/-!
# Context strategies

What tells apart the runs of a method: nothing, the latest calls, the receiver objects, or the
classes that allocate those. Each strategy but the first has a depth and a short name, which `text`
writes and `parse?` reads.
-/

namespace PointsTo

/-- What contexts are made of, and how many elements they keep. -/
inductive Strategy where
  /-- All runs of a method are one. -/
  | insensitive
  /-- The latest call sites. -/
  | callSite (k : Nat)
  /-- The receiver object, the receiver of its allocating method, and so on. -/
  | object (k : Nat)
  /-- As `object`, with the classes that declare the allocating methods. -/
  | type (k : Nat)
deriving DecidableEq, Repr

namespace Strategy

/-- The number of elements that a context keeps. -/
def depth : Strategy → Nat
  | .insensitive => 0
  | .callSite k | .object k | .type k => k

/-- The short name. -/
def text : Strategy → String
  | .insensitive => "ci"
  | .callSite k => toString k ++ "-call"
  | .object k => toString k ++ "-obj"
  | .type k => toString k ++ "-type"

/-- The strategies of a family, by the name of the family. -/
def family? (name : String) : Option (Nat → Strategy) :=
  if name = "call" ∨ name = "cfa" then some .callSite
  else if name = "obj" ∨ name = "object" then some .object
  else if name = "type" then some .type
  else none

/-- Reads a depth, a dash and the name of a family. -/
def parseDeep? (l : List Char) : Option Strategy :=
  match l.dropWhile (· ≠ '-') with
  | [] => none
  | _ :: name => do
    let k ← Text.decimal64? (l.takeWhile (· ≠ '-'))
    return (← family? (String.ofList name)) k

/-- Reads a short name or one of its longer forms. White space around it and the case of its letters
do not matter. -/
def parse? (s : String) : Option Strategy :=
  let name := Text.lower (Text.trim s.toList)
  if String.ofList name = "ci" ∨ String.ofList name = "insensitive" then some .insensitive
  else parseDeep? name

end Strategy

end PointsTo
