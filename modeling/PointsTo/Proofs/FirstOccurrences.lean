import Mathlib.Data.List.Basic
import Mathlib.Data.List.Induction
import PointsTo.Proofs.Distinct

/-!
# First occurrences

What collecting a list without repeats leaves of it: its values, in the order of their first
occurrences.
-/

namespace PointsTo

variable {α : Type} [DecidableEq α] {l : List α}

/-- A list has the members of another, in the order of their first occurrences there; the order is
strict, so each is in it once. -/
structure FirstsOf (l firsts : List α) : Prop where
  mem {a : α} : a ∈ firsts ↔ a ∈ l
  ordered : firsts.Pairwise fun a b => l.idxOf a < l.idxOf b

theorem distinct_append_singleton (l : List α) (a : α) :
    distinct (l ++ [a]) = addNew (distinct l) a := by
  rw [distinct, List.foldl_append]
  rfl

theorem firstsOf_distinct (l : List α) : FirstsOf l (distinct l) := by
  refine ⟨mem_distinct, ?_⟩
  -- from the right, since a value is compared with those before it
  induction l using List.reverseRecOn with
  | nil => exact .nil
  | append_singleton l a ih =>
    have before : (distinct l).Pairwise fun b c => (l ++ [a]).idxOf b < (l ++ [a]).idxOf c := by
      refine ih.imp_of_mem fun {b c} first second earlier => ?_
      rw [mem_distinct] at first second
      rwa [List.idxOf_append_of_mem first, List.idxOf_append_of_mem second]
    rw [distinct_append_singleton, addNew]
    split
    · exact before
    · rename_i new
      refine List.pairwise_append.2 ⟨before, List.pairwise_singleton _ _, fun b first c last => ?_⟩
      obtain rfl := List.mem_singleton.1 last
      rw [mem_distinct] at first new
      rw [List.idxOf_append_of_mem first, List.idxOf_append_of_notMem new]
      exact Nat.lt_add_right _ (List.idxOf_lt_length_of_mem first)

end PointsTo
