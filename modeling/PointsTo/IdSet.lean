import PointsTo.Id

/-!
# Sets of identifiers

A set of identifiers is a strictly ascending list of them. Points-to sets are sets of objects under
heap contexts. Sets only grow, and `addAll`, the union that drives propagation, gives the members
that were new together with the grown set.
-/

namespace PointsTo

variable {e : Entity}

/-- Every member comes before all later ones. -/
abbrev Ascending (l : List (Id e)) : Prop :=
  l.Pairwise fun a b => a.index < b.index

/-! ## Ascending lists -/

namespace Ascending

/-- Puts an identifier where it belongs; an ascending list that has it stays as it is. -/
def insert (o : Id e) : List (Id e) → List (Id e)
  | [] => [o]
  | a :: l =>
    if o.index < a.index then o :: a :: l
    else if a.index < o.index then a :: insert o l
    else a :: l

theorem mem_insert {o a : Id e} {l : List (Id e)} : a ∈ insert o l ↔ a = o ∨ a ∈ l := by
  induction l with
  | nil => simp [insert]
  | cons b l ih =>
    rw [insert]
    split
    · simp
    · split
      · simp only [List.mem_cons, ih]
        exact ⟨fun h => by rcases h with h | h | h <;> simp [h],
          fun h => by rcases h with h | h | h <;> simp [h]⟩
      · have same : o = b := Id.ext_index (by omega)
        simp [same]

theorem ascending_insert {o : Id e} {l : List (Id e)} (h : Ascending l) :
    Ascending (insert o l) := by
  induction l with
  | nil => simp [insert, Ascending]
  | cons b l ih =>
    obtain ⟨below, rest⟩ := List.pairwise_cons.1 h
    rw [insert]
    split
    · rename_i first
      refine List.pairwise_cons.2 ⟨fun a ha => ?_, h⟩
      rcases List.mem_cons.1 ha with rfl | ha
      · exact first
      · exact Nat.lt_trans first (below a ha)
    · split
      · rename_i after
        refine List.pairwise_cons.2 ⟨fun a ha => ?_, ih rest⟩
        rcases mem_insert.1 ha with rfl | ha
        · exact after
        · exact below a ha
      · exact h

/-- Merges `a :: l` with an ascending list, given how `l` is merged. -/
def mergeCons (a : Id e) (l : List (Id e))
    (mergeTail : List (Id e) → List (Id e) × List (Id e)) :
    List (Id e) → List (Id e) × List (Id e)
  | [] => (a :: l, [])
  | b :: r =>
    if a.index < b.index then
      let (merged, delta) := mergeTail (b :: r)
      (a :: merged, delta)
    else if b.index < a.index then
      let (merged, delta) := mergeCons a l mergeTail r
      (b :: merged, b :: delta)
    else
      let (merged, delta) := mergeTail r
      (a :: merged, delta)

/-- One pass over two ascending lists: the members of both in ascending order, and the members that
only the second has. -/
def merge : List (Id e) → List (Id e) → List (Id e) × List (Id e)
  | [] => fun r => (r, r)
  | a :: l => mergeCons a l (merge l)

/-- The members of two ascending lists in ascending order. -/
def union (l r : List (Id e)) : List (Id e) :=
  (merge l r).1

/-- The members of the second ascending list that the first does not have. -/
def fresh (l r : List (Id e)) : List (Id e) :=
  (merge l r).2

/-- Whether `a :: l` and an ascending list have a common member, given how this is found out for
`l`. -/
def meetsCons (a : Id e) (meetsTail : List (Id e) → Bool) : List (Id e) → Bool
  | [] => false
  | b :: r =>
    if a.index < b.index then meetsTail (b :: r)
    else if b.index < a.index then meetsCons a meetsTail r
    else true

/-- Whether two ascending lists have a common member, in one pass over both. -/
def meets : List (Id e) → List (Id e) → Bool
  | [] => fun _ => false
  | a :: l => meetsCons a (meets l)

theorem union_nil_left (r : List (Id e)) : union [] r = r := rfl

theorem union_nil_right (l : List (Id e)) : union l [] = l := by
  cases l <;> rfl

theorem fresh_nil_left (r : List (Id e)) : fresh [] r = r := rfl

theorem fresh_nil_right (l : List (Id e)) : fresh l [] = [] := by
  cases l <;> rfl

theorem merge_cons_cons (a b : Id e) (l r : List (Id e)) :
    merge (a :: l) (b :: r) =
      if a.index < b.index then (a :: union l (b :: r), fresh l (b :: r))
      else if b.index < a.index then (b :: union (a :: l) r, b :: fresh (a :: l) r)
      else (a :: union l r, fresh l r) := rfl

theorem union_cons_cons (a b : Id e) (l r : List (Id e)) :
    union (a :: l) (b :: r) =
      if a.index < b.index then a :: union l (b :: r)
      else if b.index < a.index then b :: union (a :: l) r
      else a :: union l r := by
  rw [union, merge_cons_cons, apply_ite Prod.fst, apply_ite Prod.fst]

theorem fresh_cons_cons (a b : Id e) (l r : List (Id e)) :
    fresh (a :: l) (b :: r) =
      if a.index < b.index then fresh l (b :: r)
      else if b.index < a.index then b :: fresh (a :: l) r
      else fresh l r := by
  rw [fresh, merge_cons_cons, apply_ite Prod.snd, apply_ite Prod.snd]

theorem meets_cons_cons (a b : Id e) (l r : List (Id e)) :
    meets (a :: l) (b :: r) =
      if a.index < b.index then meets l (b :: r)
      else if b.index < a.index then meets (a :: l) r
      else true := rfl

theorem mem_union {o : Id e} {l r : List (Id e)} : o ∈ union l r ↔ o ∈ l ∨ o ∈ r := by
  induction l generalizing r with
  | nil => simp [union_nil_left]
  | cons a l ihl =>
    induction r with
    | nil => simp [union_nil_right]
    | cons b r ihr =>
      rw [union_cons_cons]
      split
      · simp [ihl, or_assoc]
      · split
        · simp [ihr, or_left_comm, or_assoc]
        · have same : a = b := Id.ext_index (by omega)
          simp only [List.mem_cons, ihl, same]
          exact ⟨fun h => by rcases h with h | h | h <;> simp [h],
            fun h => by rcases h with (h | h) | h | h <;> simp [h]⟩

theorem ascending_union {l r : List (Id e)} (hl : Ascending l) (hr : Ascending r) :
    Ascending (union l r) := by
  induction l generalizing r with
  | nil => exact hr
  | cons a l ihl =>
    obtain ⟨belowl, restl⟩ := List.pairwise_cons.1 hl
    induction r with
    | nil => exact hl
    | cons b r ihr =>
      obtain ⟨belowr, restr⟩ := List.pairwise_cons.1 hr
      rw [union_cons_cons]
      split
      · rename_i lt
        refine List.pairwise_cons.2 ⟨fun o ho => ?_, ihl restl hr⟩
        rcases mem_union.1 ho with ho | ho
        · exact belowl o ho
        · rcases List.mem_cons.1 ho with rfl | ho
          · exact lt
          · exact Nat.lt_trans lt (belowr o ho)
      · split
        · rename_i lt
          refine List.pairwise_cons.2 ⟨fun o ho => ?_, ihr restr⟩
          rcases mem_union.1 ho with ho | ho
          · rcases List.mem_cons.1 ho with rfl | ho
            · exact lt
            · exact Nat.lt_trans lt (belowl o ho)
          · exact belowr o ho
        · have same : a = b := Id.ext_index (by omega)
          refine List.pairwise_cons.2 ⟨fun o ho => ?_, ihl restl restr⟩
          rcases mem_union.1 ho with ho | ho
          · exact belowl o ho
          · exact same ▸ belowr o ho

theorem mem_of_mem_fresh {o : Id e} {l r : List (Id e)} (h : o ∈ fresh l r) : o ∈ r := by
  induction l generalizing r with
  | nil => exact h
  | cons a l ihl =>
    induction r with
    | nil => simp [fresh_nil_right] at h
    | cons b r ihr =>
      rw [fresh_cons_cons] at h
      split at h
      · exact ihl h
      · split at h
        · rcases List.mem_cons.1 h with rfl | h
          · simp
          · exact List.mem_cons_of_mem _ (ihr h)
        · exact List.mem_cons_of_mem _ (ihl h)

theorem ascending_fresh {l r : List (Id e)} (hr : Ascending r) : Ascending (fresh l r) := by
  induction l generalizing r with
  | nil => exact hr
  | cons a l ihl =>
    induction r with
    | nil => simp [fresh_nil_right, Ascending]
    | cons b r ihr =>
      obtain ⟨below, rest⟩ := List.pairwise_cons.1 hr
      rw [fresh_cons_cons]
      split
      · exact ihl hr
      · split
        · exact List.pairwise_cons.2 ⟨fun o ho => below o (mem_of_mem_fresh ho), ihr rest⟩
        · exact ihl rest

end Ascending

/-! ## Sets -/

/-- A set of identifiers of one kind of entity. -/
structure IdSet (e : Entity) where
  toList : List (Id e)
  ascending : Ascending toList

namespace IdSet

instance : DecidableEq (IdSet e) := fun s t =>
  decidable_of_iff (s.toList = t.toList) ⟨fun h => by cases s; cases t; simp_all, fun h => h ▸ rfl⟩

@[ext]
theorem ext_toList {s t : IdSet e} (h : s.toList = t.toList) : s = t := by
  cases s
  cases t
  simp_all

/-- The set without members. -/
def empty : IdSet e := ⟨[], .nil⟩

/-- The set of one member. -/
def singleton (o : Id e) : IdSet e := ⟨[o], by simp [Ascending]⟩

instance : Membership (Id e) (IdSet e) := ⟨fun s o => o ∈ s.toList⟩

/-- Whether an identifier is a member. -/
def contains (s : IdSet e) (o : Id e) : Bool :=
  s.toList.contains o

/-- The number of members. -/
def size (s : IdSet e) : Nat :=
  s.toList.length

/-- Whether there are no members. -/
def isEmpty (s : IdSet e) : Bool :=
  s.toList.isEmpty

/-- Adds a member. -/
def insert (s : IdSet e) (o : Id e) : IdSet e :=
  ⟨Ascending.insert o s.toList, Ascending.ascending_insert s.ascending⟩

/-- Adds a member, and says whether it was absent. -/
def add (s : IdSet e) (o : Id e) : Bool × IdSet e :=
  (!s.contains o, s.insert o)

/-- The set of the members of a list, which may have them in any order and more than once. -/
def ofList (l : List (Id e)) : IdSet e :=
  l.foldl insert empty

/-- One pass over two sets: the members of both, and those that only `t` has. -/
def merge (s t : IdSet e) : IdSet e × IdSet e :=
  let lists := Ascending.merge s.toList t.toList
  (⟨lists.1, Ascending.ascending_union s.ascending t.ascending⟩,
    ⟨lists.2, Ascending.ascending_fresh t.ascending⟩)

/-- The members of both sets. -/
def union (s t : IdSet e) : IdSet e :=
  (s.merge t).1

/-- The members of `t` that are not members of `s`. -/
def fresh (s t : IdSet e) : IdSet e :=
  (s.merge t).2

/-- Adds the members of `t`, and gives those that were new. The sets are merged only if neither of
them is empty, and the set is replaced only if something is new. -/
def addAll (s t : IdSet e) : IdSet e × IdSet e :=
  if t.isEmpty then (empty, s)
  else if s.isEmpty then (t, t)
  else
    let (merged, delta) := s.merge t
    (delta, if delta.isEmpty then s else merged)

/-- Whether two sets have a common member. -/
def intersects (s t : IdSet e) : Bool :=
  Ascending.meets s.toList t.toList

/-- Whether every member of `s` is a member of `t`. A set with more members is not looked through. -/
def isSubset (s t : IdSet e) : Bool :=
  decide (s.size ≤ t.size) && s.toList.all t.contains

theorem mem_def {s : IdSet e} {o : Id e} : o ∈ s ↔ o ∈ s.toList := Iff.rfl

theorem contains_iff {s : IdSet e} {o : Id e} : s.contains o = true ↔ o ∈ s := by
  simp [contains, mem_def]

theorem mem_insert {s : IdSet e} {o a : Id e} : a ∈ s.insert o ↔ a = o ∨ a ∈ s :=
  Ascending.mem_insert

theorem mem_union {s t : IdSet e} {a : Id e} : a ∈ s.union t ↔ a ∈ s ∨ a ∈ t :=
  Ascending.mem_union

end IdSet

/-- A set of objects under heap contexts. -/
abbrev ObjectSet := IdSet .csObject

end PointsTo
