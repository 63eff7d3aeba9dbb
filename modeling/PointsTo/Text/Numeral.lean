import PointsTo.Id

/-!
# Numerals

Natural numbers written in a base between two and sixteen. A numeral has at least one digit and
nothing but digits; leading zeros do not matter, and the value has to be below a limit.
-/

namespace PointsTo.Text

/-- The value of a digit, letters of either case following nine. -/
def digitValue (c : Char) : Option Nat :=
  if '0' ≤ c ∧ c ≤ '9' then some (c.toNat - '0'.toNat)
  else if 'a' ≤ c ∧ c ≤ 'f' then some (c.toNat - 'a'.toNat + 10)
  else if 'A' ≤ c ∧ c ≤ 'F' then some (c.toNat - 'A'.toNat + 10)
  else none

/-- The value of a digit of a base. -/
def digitIn (base : Nat) (c : Char) : Option Nat :=
  (digitValue c).filter (· < base)

/-- Reads on after digits of a value. -/
def digitsFrom (base : Nat) : Nat → List Char → Option Nat
  | value, [] => some value
  | value, c :: rest =>
    match digitIn base c with
    | some d => digitsFrom base (value * base + d) rest
    | none => none

/-- The value of a numeral. -/
def numeral? (base : Nat) : List Char → Option Nat
  | [] => none
  | l => digitsFrom base 0 l

/-- The value of a numeral if it fits into 64 bits. -/
def numeral64? (base : Nat) (l : List Char) : Option Nat :=
  (numeral? base l).filter (· < wordLimit)

/-- The value of a decimal numeral that fits into 64 bits; a plus sign may stand in front. -/
def decimal64? : List Char → Option Nat
  | '+' :: l => numeral64? 10 l
  | l => numeral64? 10 l

end PointsTo.Text
