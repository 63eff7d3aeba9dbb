import PointsTo.Id
import PointsTo.Json.Value

/-!
# JSON forms

How values are written as JSON values and read back. A type with a JSON form has a writer and a
reader; forms of lists, pairs and optional values are built from the forms of their parts. Reading a
record ignores members that are not its fields.
-/

namespace PointsTo

/-- Types whose values can be written as JSON values and read back. -/
class JsonForm (α : Type) where
  toJson : α → Json
  ofJson? : Json → Option α

export JsonForm (toJson ofJson?)

/-- A number of 64 bits. -/
def word? (j : Json) : Option Nat :=
  j.natBelow? wordLimit

namespace JsonForm

variable {α β : Type}

instance : JsonForm Bool where
  toJson := .bool
  ofJson?
    | .bool b => some b
    | _ => none

instance : JsonForm String where
  toJson := .string
  ofJson?
    | .string s => some s
    | _ => none

instance [JsonForm α] : JsonForm (Option α) where
  toJson
    | none => .null
    | some a => toJson a
  ofJson?
    | .null => some none
    | j => (ofJson? j).map some

instance [JsonForm α] : JsonForm (List α) where
  toJson l := .array (l.map toJson)
  ofJson?
    | .array items => items.mapM ofJson?
    | _ => none

instance [JsonForm α] : JsonForm (Array α) where
  toJson l := .array (l.toList.map toJson)
  ofJson?
    | .array items => (items.mapM ofJson?).map List.toArray
    | _ => none

instance [JsonForm α] [JsonForm β] : JsonForm (α × β) where
  toJson p := .array [toJson p.1, toJson p.2]
  ofJson?
    | .array [a, b] => do return (← ofJson? a, ← ofJson? b)
    | _ => none

end JsonForm

/-- A field that a record has to have. -/
def required {α : Type} [JsonForm α] (field : Option Json) : Option α :=
  field.bind ofJson?

/-- Builds a value from two members of an object. -/
def ofMembers? {α β γ : Type} [JsonForm α] [JsonForm β] (first second : String) (build : α → β → γ)
    (j : Json) : Option γ := do
  let [a, b] ← j.members? [first, second] | none
  return build (← required a) (← required b)

/-- A field of 64 bits that a record has to have. -/
def requiredWord (field : Option Json) : Option Nat :=
  field.bind word?

/-- A field that a record need not have. -/
def optional {α : Type} [JsonForm α] (field : Option Json) : Option (Option α) :=
  match field with
  | none => some none
  | some j => ofJson? j

end PointsTo
