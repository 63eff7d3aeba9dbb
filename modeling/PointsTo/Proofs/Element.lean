import PointsTo.Proofs.Table
import PointsTo.Element.Store

/-!
# Growth of element stores

Asking for an element adds at most that element, and the points-to sets of locations stay as they
are.
-/

namespace PointsTo

namespace ElementStore

variable {s : ElementStore} {k : PointerKey} {p : PointerId}

/-- A location has an object in its set. -/
def Contains (s : ElementStore) (p : PointerId) (o : CsObjId) : Prop :=
  ∃ set, s.pointsTo[p.index]? = some set ∧ o ∈ set

/-- A location that is asked for is interned. -/
theorem intern_eq_pointer (s : ElementStore) (k : PointerKey) :
    s.pointers.intern k = ((s.pointer k).1.index, (s.pointer k).2.pointers) := by
  unfold pointer
  split
  · rename_i i found
    rw [Table.intern_of_find?_eq_some found]
  · rename_i absent
    rw [Table.intern_of_find?_eq_none absent]

theorem pointers_pointer (s : ElementStore) (k : PointerKey) :
    (s.pointer k).2.pointers = (s.pointers.intern k).2 := by
  rw [intern_eq_pointer]

theorem index_pointer (s : ElementStore) (k : PointerKey) :
    (s.pointer k).1.index = (s.pointers.intern k).1 := by
  rw [intern_eq_pointer]

theorem get?_pointer (s : ElementStore) (k : PointerKey) :
    (s.pointer k).2.pointers.get? (s.pointer k).1.index = some k := by
  rw [pointers_pointer, index_pointer]
  exact Table.get?_intern s.pointers k

/-- A location that is asked for has the objects that it had; a new one has none. -/
theorem contains_pointer {o : CsObjId} : (s.pointer k).2.Contains p o ↔ s.Contains p o := by
  unfold pointer
  split
  · exact Iff.rfl
  · simp only [Contains, Array.getElem?_push]
    constructor
    · rintro ⟨set, found, mem⟩
      split at found
      · rw [← Option.some.inj found] at mem
        exact absurd mem List.not_mem_nil
      · exact ⟨set, found, mem⟩
    · rintro ⟨set, found, mem⟩
      have inside : p.index < s.pointsTo.size := (Array.getElem?_eq_some_iff.1 found).1
      rw [if_neg (Nat.ne_of_lt inside)]
      exact ⟨set, found, mem⟩

theorem objects_pointer (s : ElementStore) (k : PointerKey) :
    (s.pointer k).2.objects = s.objects := by
  unfold pointer
  split <;> rfl

theorem methods_pointer (s : ElementStore) (k : PointerKey) :
    (s.pointer k).2.methods = s.methods := by
  unfold pointer
  split <;> rfl

theorem callSites_pointer (s : ElementStore) (k : PointerKey) :
    (s.pointer k).2.callSites = s.callSites := by
  unfold pointer
  split <;> rfl

theorem pointsToSet_eq_ok_iff {set : ObjectSet} :
    s.pointsToSet p = .ok set ↔ s.pointsTo[p.index]? = some set :=
  fetch_eq_ok_iff

/-- The set of a location that is replaced by a union has the members of both. -/
theorem contains_setPointsTo {set added : ObjectSet} (found : s.pointsToSet p = .ok set)
    {p' : PointerId} {o : CsObjId} :
    (s.setPointsTo p (set.union added)).Contains p' o ↔
      s.Contains p' o ∨ p' = p ∧ o ∈ added := by
  rw [pointsToSet_eq_ok_iff] at found
  have inside : p.index < s.pointsTo.size := (Array.getElem?_eq_some_iff.1 found).1
  simp only [Contains, setPointsTo, Array.getElem?_setIfInBounds]
  by_cases same : p = p'
  · subst same
    simp only [if_pos inside, found, Option.some.injEq, exists_eq_left', true_and,
      if_true, IdSet.mem_union]
  · have other : p.index ≠ p'.index := fun eq => same (Id.ext_index eq)
    simp only [if_neg other, Ne.symm same, false_and, or_false]

/-- The location of a key that was asked for before is found again. -/
theorem findPointer?_eq_some_iff : s.findPointer? k = some p ↔ s.pointers.get? p.index = some k := by
  rw [findPointer?, Option.map_eq_some_iff]
  constructor
  · rintro ⟨i, found, rfl⟩
    exact Table.find?_eq_some_iff.1 found
  · intro present
    exact ⟨p.index, Table.find?_eq_some_iff.2 present, rfl⟩

/-- The identifier of a method that was asked for before is found again. -/
theorem findCsMethod?_eq_some_iff {m : CsMethod} {i : CsMethodId} :
    s.findCsMethod? m = some i ↔ s.methods.get? i.index = some m := by
  rw [findCsMethod?, Option.map_eq_some_iff]
  constructor
  · rintro ⟨j, found, rfl⟩
    exact Table.find?_eq_some_iff.1 found
  · intro present
    exact ⟨i.index, Table.find?_eq_some_iff.2 present, rfl⟩

/-! ## Lists of locations -/

theorem mem_pointerList : (p, k) ∈ s.pointerList ↔ s.pointers.get? p.index = some k := by
  rw [pointerList, List.mem_map, Table.get?_eq_getElem?_toList]
  constructor
  · rintro ⟨⟨k', i⟩, listed, same⟩
    obtain ⟨rfl, rfl⟩ := Prod.mk.inj same
    exact List.mk_mem_zipIdx_iff_getElem?.1 listed
  · intro present
    exact ⟨(k, p.index), List.mk_mem_zipIdx_iff_getElem?.2 present, rfl⟩

/-- A list that picks one kind of location has those of that kind. -/
theorem mem_filterMap_pointerList {β : Type} {pick : PointerId × PointerKey → Option β} {b : β}
    (picks : ∀ p' k', pick (p', k') = some b ↔ p' = p ∧ k' = k) :
    b ∈ s.pointerList.filterMap pick ↔ s.pointers.get? p.index = some k := by
  rw [List.mem_filterMap, ← mem_pointerList]
  constructor
  · rintro ⟨⟨p', k'⟩, listed, picked⟩
    obtain ⟨rfl, rfl⟩ := (picks p' k').1 picked
    exact listed
  · intro listed
    exact ⟨(p, k), listed, (picks p k).2 ⟨rfl, rfl⟩⟩

theorem mem_varPointers {c : ContextId} {v : VarId} :
    (p, c, v) ∈ s.varPointers ↔ s.pointers.get? p.index = some (.var c v) :=
  mem_filterMap_pointerList fun p' k' => by cases k' <;> simp

/-- The locations of one variable. -/
theorem mem_ofVar {v : VarId} :
    p ∈ s.varPointers.filterMap (fun (p, _, w) => if w = v then some p else none) ↔
      ∃ c, s.pointers.get? p.index = some (.var c v) := by
  rw [List.mem_filterMap]
  constructor
  · rintro ⟨⟨p', c, w⟩, mem, picked⟩
    obtain ⟨rfl, rfl⟩ : w = v ∧ p' = p := by simpa using picked
    exact ⟨c, mem_varPointers.1 mem⟩
  · rintro ⟨c, known⟩
    exact ⟨(p, c, v), mem_varPointers.2 known, if_pos rfl⟩

theorem mem_staticFieldPointers {f : FieldId} :
    (p, f) ∈ s.staticFieldPointers ↔ s.pointers.get? p.index = some (.staticField f) :=
  mem_filterMap_pointerList fun p' k' => by cases k' <;> simp

theorem mem_instanceFieldPointers {base : CsObjId} {f : FieldId} :
    (p, base, f) ∈ s.instanceFieldPointers ↔
      s.pointers.get? p.index = some (.instanceField base f) :=
  mem_filterMap_pointerList fun p' k' => by cases k' <;> simp

/-- The locations of one field, with their bases. -/
theorem mem_ofField {base : CsObjId} {f : FieldId} :
    (p, base) ∈ s.instanceFieldPointers.filterMap
      (fun (p, base, g) => if g = f then some (p, base) else none) ↔
        s.pointers.get? p.index = some (.instanceField base f) := by
  rw [← mem_instanceFieldPointers, List.mem_filterMap]
  constructor
  · rintro ⟨⟨p', x', g⟩, mem, picked⟩
    obtain ⟨rfl, rfl, rfl⟩ : g = f ∧ p' = p ∧ x' = base := by simpa using picked
    exact mem
  · intro mem
    exact ⟨(p, base, f), mem, if_pos rfl⟩

theorem mem_arrayPointers {base : CsObjId} :
    (p, base) ∈ s.arrayPointers ↔ s.pointers.get? p.index = some (.arrayIndex base) :=
  mem_filterMap_pointerList fun p' k' => by cases k' <;> simp

end ElementStore

end PointsTo
