/-!
# JSON values

Values of the JSON format. The members of an object are kept in order. A number is a decimal
fraction, so that no digit of it is lost.
-/

namespace PointsTo

/-- A JSON value. -/
inductive Json where
  | null
  | bool (b : Bool)
  /-- The number `mantissa / 10 ^ decimals`. -/
  | number (mantissa : Int) (decimals : Nat)
  | string (s : String)
  | array (items : List Json)
  | object (members : List (String × Json))
deriving Repr, Inhabited

namespace Json

/-- A natural number. -/
def nat (n : Nat) : Json :=
  .number n 0

/-- The value of a member of an object. -/
def member? (name : String) : Json → Option Json
  | .object members => members.lookup name
  | _ => none

/-- A natural number below a limit, written without decimals. -/
def natBelow? (limit : Nat) : Json → Option Nat
  | .number (.ofNat n) 0 => if n < limit then some n else none
  | _ => none

/-- Whether the value is a number. -/
def isNumber : Json → Bool
  | .number _ _ => true
  | _ => false

/-- The values of some members of an object. Other members do not matter, and members may lack. -/
def members? (names : List String) : Json → Option (List (Option Json))
  | .object members => some (names.map fun name => members.lookup name)
  | _ => none

/-- The values of the fields of a record. The record is an object with the fields as members, or a
list of all the values in the order of the fields. -/
def fields? (names : List String) : Json → Option (List (Option Json))
  | .array items => if items.length = names.length then some (items.map some) else none
  | j => j.members? names

/-- A tagged value: an object whose one member is the tag with its payload, or the tag alone. -/
def tagged? : Json → Option (String × Option Json)
  | .string tag => some (tag, none)
  | .object [(tag, payload)] => some (tag, some payload)
  | _ => none

/-- A tag without a payload: the tag alone, or with the payload null. -/
def tag? (j : Json) : Option String :=
  match j.tagged? with
  | some (tag, none) => some tag
  | some (tag, some .null) => some tag
  | _ => none

end Json

end PointsTo
