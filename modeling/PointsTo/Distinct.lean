/-!
# Lists without repeats

Lists that collect values in the order of their first occurrence. `addNew` is the step and
`distinct` the whole collection.
-/

namespace PointsTo

variable {α : Type} [DecidableEq α]

/-- Adds a value at the end unless the list has it. -/
def addNew (l : List α) (a : α) : List α :=
  if a ∈ l then l else l ++ [a]

/-- The values of a list, each at its first occurrence. -/
def distinct (l : List α) : List α :=
  l.foldl addNew []

theorem mem_addNew {l : List α} {a b : α} : b ∈ addNew l a ↔ b ∈ l ∨ b = a := by
  unfold addNew
  split
  · constructor
    · exact Or.inl
    · rintro (h | rfl) <;> assumption
  · simp

theorem nodup_addNew {l : List α} {a : α} (h : l.Nodup) : (addNew l a).Nodup := by
  unfold addNew
  split
  · exact h
  · rename_i absent
    rw [List.nodup_append]
    refine ⟨h, by simp, ?_⟩
    rintro b hb c hc rfl
    simp only [List.mem_singleton] at hc
    exact absurd (hc ▸ hb) absent

end PointsTo
