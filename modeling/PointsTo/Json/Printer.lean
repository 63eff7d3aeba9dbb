import PointsTo.Json.Value

/-!
# Printed JSON

The text of a JSON value with a member or an item on each line, two spaces further in than what it
belongs to. Lists and objects without items stand on one line. In strings only quotes, backslashes
and control characters are escaped.
-/

namespace PointsTo.Json

/-- The lower-case hexadecimal digit of a number below sixteen. -/
def hexDigit (n : Nat) : Char :=
  if n < 10 then Char.ofNat ('0'.toNat + n) else Char.ofNat ('a'.toNat + (n - 10))

/-- A character as it stands in a string. -/
def escapeChar (c : Char) : List Char :=
  if c = '"' then ['\\', '"']
  else if c = '\\' then ['\\', '\\']
  else if c = '\x08' then ['\\', 'b']
  else if c = '\x0c' then ['\\', 'f']
  else if c = '\n' then ['\\', 'n']
  else if c = '\r' then ['\\', 'r']
  else if c = '\t' then ['\\', 't']
  else if c.toNat < 0x20 then ['\\', 'u', '0', '0', hexDigit (c.toNat / 16), hexDigit (c.toNat % 16)]
  else [c]

/-- A string between quotes. -/
def quote (s : String) : String :=
  "\"" ++ String.ofList (s.toList.flatMap escapeChar) ++ "\""

/-- A number in decimal notation. -/
def numberText (mantissa : Int) (decimals : Nat) : String :=
  let sign := if mantissa < 0 then "-" else ""
  let whole := mantissa.natAbs / Nat.pow 10 decimals
  let part := toString (mantissa.natAbs % Nat.pow 10 decimals)
  if decimals = 0 then sign ++ toString whole
  else sign ++ toString whole ++ "." ++ "".pushn '0' (decimals - part.length) ++ part

/-- A new line, indented by a number of levels. -/
def newline (level : Nat) : String :=
  "\n" ++ "".pushn ' ' (2 * level)

mutual

/-- The text of a value at a level of indentation. -/
def pretty (level : Nat) : Json → String
  | .null => "null"
  | .bool true => "true"
  | .bool false => "false"
  | .number mantissa decimals => numberText mantissa decimals
  | .string s => quote s
  | .array [] => "[]"
  | .array (j :: items) =>
    "[" ++ newline (level + 1) ++ pretty (level + 1) j ++ prettyItems (level + 1) items ++
      newline level ++ "]"
  | .object [] => "\x7b\x7d"
  | .object ((name, j) :: members) =>
    "\x7b" ++ newline (level + 1) ++ quote name ++ ": " ++ pretty (level + 1) j ++
      prettyMembers (level + 1) members ++ newline level ++ "\x7d"

/-- The texts of the items after the first. -/
def prettyItems (level : Nat) : List Json → String
  | [] => ""
  | j :: items => "," ++ newline level ++ pretty level j ++ prettyItems level items

/-- The texts of the members after the first. -/
def prettyMembers (level : Nat) : List (String × Json) → String
  | [] => ""
  | (name, j) :: members =>
    "," ++ newline level ++ quote name ++ ": " ++ pretty level j ++ prettyMembers level members

end

end PointsTo.Json
