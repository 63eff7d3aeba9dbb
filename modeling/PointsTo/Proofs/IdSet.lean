import PointsTo.IdSet

/-!
# Members of sets of identifiers

What the operations on ascending lists do to membership and to the number of members. The members
that `addAll` gives are those that it adds.
-/

namespace PointsTo

variable {e : Entity}

namespace Ascending

/-- A member that comes before all others of an ascending list is not among those. -/
theorem not_mem_of_before {a : Id e} {l : List (Id e)} (before : ∀ b ∈ l, a.index < b.index) :
    a ∉ l := by
  intro mem
  have := before a mem
  omega

theorem not_mem_cons_of_lt {a b : Id e} {r : List (Id e)} (less : a.index < b.index)
    (hr : Ascending (b :: r)) : a ∉ b :: r := by
  apply not_mem_of_before
  intro c hc
  rcases List.mem_cons.1 hc with same | later
  · rwa [same]
  · exact Nat.lt_trans less ((List.pairwise_cons.1 hr).1 c later)

/-- Adding to a list what another one lacks leaves the difference between them as it was. -/
theorem and_not_mem_cons_iff {o a : Id e} {l r : List (Id e)} (absent : a ∉ r) :
    o ∈ r ∧ o ∉ a :: l ↔ o ∈ r ∧ o ∉ l := by
  refine and_congr_right fun mem => ?_
  rw [List.mem_cons, or_iff_right]
  rintro rfl
  exact absent mem

theorem mem_fresh {o : Id e} {l r : List (Id e)} (hl : Ascending l) (hr : Ascending r) :
    o ∈ fresh l r ↔ o ∈ r ∧ o ∉ l := by
  induction l generalizing r with
  | nil => simp [fresh_nil_left]
  | cons a l ihl =>
    obtain ⟨-, restl⟩ := List.pairwise_cons.1 hl
    induction r with
    | nil => simp [fresh_nil_right]
    | cons b r ihr =>
      obtain ⟨belowr, restr⟩ := List.pairwise_cons.1 hr
      rw [fresh_cons_cons]
      split
      · rename_i less
        -- `a` comes before the whole second list
        rw [ihl restl hr, and_not_mem_cons_iff (not_mem_cons_of_lt less hr)]
      · split
        · rename_i less
          have absent : b ∉ a :: l := not_mem_cons_of_lt less hl
          rw [List.mem_cons, ihr restr]
          constructor
          · rintro (rfl | ⟨mem, other⟩)
            · exact ⟨List.mem_cons_self, absent⟩
            · exact ⟨List.mem_cons_of_mem b mem, other⟩
          · rintro ⟨mem, other⟩
            rcases List.mem_cons.1 mem with same | mem
            · exact Or.inl same
            · exact Or.inr ⟨mem, other⟩
        · have same : a = b := Id.ext_index (by omega)
          subst same
          rw [ihl restl restr, ← and_not_mem_cons_iff (not_mem_of_before belowr)]
          refine and_congr_left fun other => ?_
          rw [List.mem_cons, or_iff_right]
          rintro rfl
          exact other List.mem_cons_self

/-- If the second list has nothing else, a merge gives the first. -/
theorem union_of_fresh_eq_nil {l r : List (Id e)} (none : fresh l r = []) : union l r = l := by
  induction l generalizing r with
  | nil => exact none
  | cons a l ihl =>
    cases r with
    | nil => exact union_nil_right (a :: l)
    | cons b r =>
      rw [fresh_cons_cons] at none
      rw [union_cons_cons]
      split at none
      · rename_i less
        rw [if_pos less, ihl none]
      · rename_i notLess
        split at none
        · cases none
        · rename_i notMore
          rw [if_neg notLess, if_neg notMore, ihl none]

theorem exists_mem_cons_iff_of_not_mem {a : Id e} {l r : List (Id e)} (absent : a ∉ r) :
    (∃ o, o ∈ a :: l ∧ o ∈ r) ↔ ∃ o, o ∈ l ∧ o ∈ r := by
  simp only [List.mem_cons, or_and_right, exists_or, exists_eq_left, absent, false_or]

/-- A pass over two ascending lists finds out whether they have a common member. -/
theorem meets_iff {l r : List (Id e)} (hl : Ascending l) (hr : Ascending r) :
    meets l r = true ↔ ∃ o, o ∈ l ∧ o ∈ r := by
  induction l generalizing r with
  | nil => simp [meets]
  | cons a l ihl =>
    obtain ⟨-, restl⟩ := List.pairwise_cons.1 hl
    induction r with
    | nil => simp [meets, meetsCons]
    | cons b r ihr =>
      obtain ⟨-, restr⟩ := List.pairwise_cons.1 hr
      rw [meets_cons_cons]
      split
      · rename_i less
        have absent : a ∉ b :: r := not_mem_cons_of_lt less hr
        rw [ihl restl hr, exists_mem_cons_iff_of_not_mem absent]
      · split
        · rename_i less
          have absent : b ∉ a :: l := not_mem_cons_of_lt less hl
          rw [ihr restr]
          calc (∃ o, o ∈ a :: l ∧ o ∈ r)
            _ ↔ ∃ o, o ∈ r ∧ o ∈ a :: l := exists_congr fun _ => and_comm
            _ ↔ ∃ o, o ∈ b :: r ∧ o ∈ a :: l := (exists_mem_cons_iff_of_not_mem absent).symm
            _ ↔ ∃ o, o ∈ a :: l ∧ o ∈ b :: r := exists_congr fun _ => and_comm
        · have same : a = b := Id.ext_index (by omega)
          simp [same]

theorem length_union (l r : List (Id e)) :
    (union l r).length = l.length + (fresh l r).length := by
  induction l generalizing r with
  | nil => simp [union_nil_left, fresh_nil_left]
  | cons a l ihl =>
    induction r with
    | nil => simp [union_nil_right, fresh_nil_right]
    | cons b r ihr =>
      rw [union_cons_cons, fresh_cons_cons]
      split
      · rw [List.length_cons, ihl, List.length_cons]
        omega
      · split
        · rw [List.length_cons, ihr, List.length_cons, List.length_cons]
          omega
        · rw [List.length_cons, ihl, List.length_cons]
          omega

end Ascending

namespace IdSet

variable {s t : IdSet e} {o : Id e}

theorem mem_fresh : o ∈ s.fresh t ↔ o ∈ t ∧ o ∉ s :=
  Ascending.mem_fresh s.ascending t.ascending

theorem size_union (s t : IdSet e) : (s.union t).size = s.size + (s.fresh t).size :=
  Ascending.length_union s.toList t.toList

theorem nodup_toList (s : IdSet e) : s.toList.Nodup := by
  rw [List.nodup_iff_pairwise_ne]
  exact s.ascending.imp fun less same => Nat.ne_of_lt less (congrArg Id.index same)

theorem not_mem_empty : o ∉ (empty : IdSet e) :=
  List.not_mem_nil

theorem mem_ofList {l : List (Id e)} : o ∈ ofList l ↔ o ∈ l := by
  have fold : ∀ s : IdSet e, o ∈ l.foldl insert s ↔ o ∈ s ∨ o ∈ l := by
    induction l with
    | nil => simp
    | cons a l ih =>
      intro s
      rw [List.foldl_cons, ih, mem_insert, List.mem_cons, or_comm (a := o = a), or_assoc]
  rw [ofList, fold]
  exact or_iff_right not_mem_empty

theorem intersects_iff {s t : IdSet e} : s.intersects t = true ↔ ∃ o, o ∈ s ∧ o ∈ t :=
  Ascending.meets_iff s.ascending t.ascending

theorem mem_singleton {a : Id e} : o ∈ singleton a ↔ o = a :=
  List.mem_singleton

theorem not_mem_of_isEmpty (h : s.isEmpty = true) : o ∉ s := by
  rw [isEmpty, List.isEmpty_iff] at h
  rw [mem_def, h]
  exact List.not_mem_nil

theorem size_pos_of_not_isEmpty (h : s.isEmpty = false) : 0 < s.size := by
  rw [isEmpty, List.isEmpty_eq_false_iff] at h
  exact List.length_pos_iff.2 h

theorem isEmpty_iff : s.isEmpty = true ↔ s = empty := by
  rw [isEmpty, List.isEmpty_iff]
  constructor
  · intro none
    exact ext_toList none
  · intro none
    rw [none]
    rfl

theorem merge_empty (s : IdSet e) : s.merge empty = (s, empty) :=
  Prod.ext (ext_toList (Ascending.union_nil_right s.toList))
    (ext_toList (Ascending.fresh_nil_right s.toList))

theorem empty_merge (t : IdSet e) : empty.merge t = (t, t) := rfl

/-- The short cuts for empty sets and for sets that bring nothing new give what a merge gives. -/
theorem addAll_eq (s t : IdSet e) : s.addAll t = (s.fresh t, s.union t) := by
  rw [addAll]
  split
  · rename_i none
    rw [fresh, union, isEmpty_iff.1 none, merge_empty]
  · split
    · rename_i none
      rw [fresh, union, isEmpty_iff.1 none, empty_merge]
    · show (s.fresh t, if (s.fresh t).isEmpty then s else s.union t) = _
      split
      · rename_i none
        have same : s.union t = s :=
          ext_toList (Ascending.union_of_fresh_eq_nil (List.isEmpty_iff.1 none))
        rw [same]
      · rfl

/-- Adding the members that a set has already does not change it. -/
theorem union_eq_of_fresh_isEmpty (h : (s.fresh t).isEmpty = true) : o ∈ t → o ∈ s := by
  intro mem
  by_cases known : o ∈ s
  · exact known
  · exact absurd (mem_fresh.2 ⟨mem, known⟩) (not_mem_of_isEmpty h)

end IdSet

end PointsTo
