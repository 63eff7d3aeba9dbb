import PointsTo.Table

/-!
# Growth of tables

A table grows by adding keys behind those it has, so a position keeps its key, and no key stands at
two positions.
-/

namespace PointsTo

namespace Table

variable {κ : Type} [Keyed κ] {t t' : Table κ} {k k' : κ} {i j : Nat}

theorem get?_eq_getElem?_toList (t : Table κ) (i : Nat) : t.get? i = t.toList[i]? := by
  rw [get?, toList, Array.getElem?_toList]

theorem mem_toList_iff_get? : k ∈ t.toList ↔ ∃ i, t.get? i = some k := by
  simp only [mem_toList_iff, find?_eq_some_iff]

theorem mem_toList_of_get? (h : t.get? i = some k) : k ∈ t.toList :=
  mem_toList_iff_get?.2 ⟨i, h⟩

theorem lt_size_of_get? (h : t.get? i = some k) : i < t.size := by
  rw [get?] at h
  exact (Array.getElem?_eq_some_iff.1 h).1

theorem exists_get?_of_lt_size (h : i < t.size) : ∃ k, t.get? i = some k :=
  ⟨_, Array.getElem?_eq_getElem h⟩

theorem length_toList (t : Table κ) : t.toList.length = t.size := by
  rw [toList, Array.length_toList, size]

/-- A key has one position. -/
theorem get?_injective (hi : t.get? i = some k) (hj : t.get? j = some k) : i = j := by
  have found := find?_eq_some_iff.2 hi
  rw [find?_eq_some_iff.2 hj] at found
  exact (Option.some.inj found).symm

theorem nodup_toList (t : Table κ) : t.toList.Nodup := by
  rw [List.nodup_iff_pairwise_ne, List.pairwise_iff_getElem]
  intro i j hi hj less same
  have first : t.get? i = some t.toList[i] := by
    rw [get?_eq_getElem?_toList, List.getElem?_eq_getElem hi]
  have second : t.get? j = some t.toList[i] := by
    rw [get?_eq_getElem?_toList, List.getElem?_eq_getElem hj, same]
  have := get?_injective first second
  omega

theorem toList_intern_of_mem (h : k ∈ t.toList) : (t.intern k).2.toList = t.toList :=
  toList_insert_of_mem h

theorem toList_intern_of_not_mem (h : k ∉ t.toList) : (t.intern k).2.toList = t.toList ++ [k] :=
  toList_insert_of_not_mem h

theorem prefix_intern (t : Table κ) (k : κ) : t.toList <+: (t.intern k).2.toList := by
  by_cases h : k ∈ t.toList
  · simp [toList_intern_of_mem h]
  · simp [toList_intern_of_not_mem h]

theorem mem_toList_intern : k' ∈ (t.intern k).2.toList ↔ k' ∈ t.toList ∨ k' = k := by
  by_cases h : k ∈ t.toList
  · rw [toList_intern_of_mem h]
    constructor
    · exact Or.inl
    · rintro (known | rfl)
      · exact known
      · exact h
  · rw [toList_intern_of_not_mem h, List.mem_append, List.mem_singleton]

/-- An interned key is the only one that an identifier may be new for. -/
theorem get?_intern_iff :
    (t.intern k).2.get? i = some k' ↔ t.get? i = some k' ∨ i = (t.intern k).1 ∧ k' = k := by
  constructor
  · intro present
    by_cases same : k' = k
    · subst same
      exact Or.inr ⟨get?_injective present (get?_intern t k'), rfl⟩
    · have old := (mem_toList_intern.1 (mem_toList_of_get? present)).resolve_right same
      obtain ⟨j, known⟩ := mem_toList_iff_get?.1 old
      obtain rfl := get?_injective present (get?_intern_of_get? known)
      exact Or.inl known
  · rintro (known | ⟨rfl, rfl⟩)
    · exact get?_intern_of_get? known
    · exact get?_intern t k'

/-- A table that stays as it is has grown. -/
theorem prefix_of_eq (same : t' = t) : t.toList <+: t'.toList := by
  subst same
  exact List.prefix_rfl

theorem size_le_of_prefix (grow : t.toList <+: t'.toList) : t.size ≤ t'.size := by
  rw [← length_toList, ← length_toList]
  exact grow.length_le

theorem get?_of_prefix (grow : t.toList <+: t'.toList) (h : t.get? i = some k) :
    t'.get? i = some k := by
  obtain ⟨rest, same⟩ := grow
  rw [get?_eq_getElem?_toList] at h
  rw [get?_eq_getElem?_toList, ← same, List.getElem?_append_left]
  · exact h
  · exact (List.getElem?_eq_some_iff.1 h).1

/-- In a grown table, a position that was in use has the key that it had. -/
theorem get?_eq_of_prefix (grow : t.toList <+: t'.toList) (h : i < t.size) :
    t'.get? i = t.get? i := by
  obtain ⟨k, present⟩ := exists_get?_of_lt_size h
  rw [present, get?_of_prefix grow present]

end Table

end PointsTo
