import PointsTo.Id
import Std.Data.TreeMap

/-!
# Keys and finite maps

A key type gives each of its values a code, a list of numbers that no other value has. Codes are
ordered lexicographically, and finite maps are search trees over that order: a look-up costs
logarithmically many comparisons, and it can be evaluated inside a proof.
-/

namespace PointsTo

/-- Types whose values have distinct codes. -/
class Keyed (κ : Type) where
  code : κ → List Nat
  code_injective : ∀ {a b : κ}, code a = code b → a = b

namespace Keyed

variable {κ : Type} [Keyed κ]

/-- Keys in the order of their codes. -/
def order : κ → κ → Ordering :=
  compareOn code

instance : Std.TransCmp (order (κ := κ)) :=
  inferInstanceAs (Std.TransCmp (compareOn (Keyed.code (κ := κ))))

instance : Std.LawfulEqCmp (order (κ := κ)) where
  compare_self := by simp [order, compareOn]
  eq_of_compare h := code_injective (by simpa [order, compareOn] using h)

instance {e : Entity} : Keyed (Id e) where
  code i := [i.index]
  code_injective h := Id.ext_index (by simpa using h)

end Keyed

/-- Finite maps from keys to values. -/
abbrev Map (κ : Type) [Keyed κ] (β : Type) :=
  Std.TreeMap κ β Keyed.order

end PointsTo
