import Mathlib.Data.List.Sort
import PointsTo.Proofs.IdSet

/-!
# Sets and how they were made

The members of a set stand in one order, so sets with the same members are the same set. A recipe says
how a set is made: from nothing, from one object, from a list, or by additions to other sets. The set
is known by the objects that the recipe puts into it, whatever their order and whether they come one by
one or as sets. An addition tells exactly what is new, and repeating it tells of nothing.
-/

namespace PointsTo

variable {e : Entity}

/-- An ascending list is known by its members. -/
theorem Ascending.eq_of_mem_iff {l r : List (Id e)} (hl : Ascending l) (hr : Ascending r)
    (same : ∀ o, o ∈ l ↔ o ∈ r) : l = r := by
  have antisymm : Std.Antisymm fun a b : Id e => a.index < b.index :=
    ⟨fun a b less more => absurd more (Nat.lt_asymm less)⟩
  have irrefl : Std.Irrefl fun a b : Id e => a.index < b.index :=
    ⟨fun a => Nat.lt_irrefl a.index⟩
  exact List.Pairwise.eq_of_mem_iff hl hr same

namespace IdSet

variable {s t : IdSet e} {o a : Id e}

/-! ## Sets with the same members -/

theorem ext_mem (same : ∀ o, o ∈ s ↔ o ∈ t) : s = t :=
  ext_toList (s.ascending.eq_of_mem_iff t.ascending same)

theorem eq_iff_mem : s = t ↔ ∀ o, o ∈ s ↔ o ∈ t := by
  constructor
  · intro same o
    rw [same]
  · exact ext_mem

theorem eq_empty_iff : s = empty ↔ ∀ o, o ∉ s := by
  rw [eq_iff_mem]
  apply forall_congr'
  intro o
  rw [iff_false_right not_mem_empty]

theorem isSubset_iff : s.isSubset t = true ↔ ∀ o, o ∈ s → o ∈ t := by
  rw [isSubset, Bool.and_eq_true, decide_eq_true_iff]
  simp only [List.all_eq_true, contains_iff]
  apply and_iff_right_of_imp
  intro subset
  exact (List.subperm_of_subset s.nodup_toList subset).length_le

/-! ## Additions -/

theorem mem_add : a ∈ (s.add o).2 ↔ a = o ∨ a ∈ s :=
  mem_insert

theorem add_eq_true_iff : (s.add o).1 = true ↔ o ∉ s := by
  rw [add, Bool.not_eq_true', ← Bool.not_eq_true, contains_iff]

theorem add_of_mem (known : o ∈ s) : (s.add o).2 = s := by
  apply ext_mem
  intro a
  rw [mem_add]
  apply or_iff_right_of_imp
  intro same
  rwa [same]

theorem mem_addAll : a ∈ (s.addAll t).2 ↔ a ∈ s ∨ a ∈ t := by
  rw [addAll_eq]
  exact mem_union

theorem mem_news : a ∈ (s.addAll t).1 ↔ a ∈ t ∧ a ∉ s := by
  rw [addAll_eq]
  exact mem_fresh

/-- Nothing is new exactly when a set is added to which nothing has to be added. -/
theorem news_eq_empty_iff : (s.addAll t).1 = empty ↔ ∀ o, o ∈ t → o ∈ s := by
  rw [eq_empty_iff]
  apply forall_congr'
  intro o
  rw [mem_news, not_and_not_right]

/-- A set to which nothing has to be added stays as it is. -/
theorem addAll_of_subset (known : ∀ o, o ∈ t → o ∈ s) : (s.addAll t).2 = s := by
  apply ext_mem
  intro o
  rw [mem_addAll]
  exact or_iff_left_of_imp (known o)

/-- Adding a set again finds nothing new and changes nothing. -/
theorem addAll_again (s t : IdSet e) : (s.addAll t).2.addAll t = (empty, (s.addAll t).2) := by
  have known : ∀ o, o ∈ t → o ∈ (s.addAll t).2 := by
    intro o mem
    exact mem_addAll.2 (Or.inr mem)
  apply Prod.ext
  · exact news_eq_empty_iff.2 known
  · exact addAll_of_subset known

/-! ## Recipes -/

/-- A way to make a set. -/
inductive Recipe (e : Entity) where
  | empty
  | singleton (o : Id e)
  | ofList (l : List (Id e))
  | add (s : Recipe e) (o : Id e)
  | addAll (s t : Recipe e)
  /-- What is new when a set is added to another. -/
  | news (s t : Recipe e)

namespace Recipe

/-- The set that a recipe makes. -/
def set : Recipe e → IdSet e
  | .empty => .empty
  | .singleton o => .singleton o
  | .ofList l => .ofList l
  | .add s o => (s.set.add o).2
  | .addAll s t => (s.set.addAll t.set).2
  | .news s t => (s.set.addAll t.set).1

/-- What a recipe puts into its set. -/
def Puts : Recipe e → Id e → Prop
  | .empty, _ => False
  | .singleton o, a => a = o
  | .ofList l, a => a ∈ l
  | .add s o, a => a = o ∨ s.Puts a
  | .addAll s t, a => s.Puts a ∨ t.Puts a
  | .news s t, a => t.Puts a ∧ ¬s.Puts a

theorem mem_set (r : Recipe e) (a : Id e) : a ∈ r.set ↔ r.Puts a := by
  induction r with
  | empty => exact iff_of_false not_mem_empty id
  | singleton o => exact mem_singleton
  | ofList l => exact mem_ofList
  | add s o ih => rw [set, mem_add, Puts, ih]
  | addAll s t ihs iht => rw [set, mem_addAll, Puts, ihs, iht]
  | news s t ihs iht => rw [set, mem_news, Puts, ihs, iht]

/-- Recipes that put in the same objects make the same set. -/
theorem set_eq_iff {r r' : Recipe e} : r.set = r'.set ↔ ∀ a, r.Puts a ↔ r'.Puts a := by
  rw [eq_iff_mem]
  simp only [mem_set]

end Recipe

/-! ## What sets tell -/

/-- A set tells whether it has an object, and takes it in if it does not. -/
structure Takes (s : IdSet e) (o : Id e) : Prop where
  contains : s.contains o = true ↔ o ∈ s
  isNew : (s.add o).1 = true ↔ o ∉ s
  members (a : Id e) : a ∈ (s.add o).2 ↔ a = o ∨ a ∈ s
  kept : o ∈ s → (s.add o).2 = s

/-- A set takes in another set and gives what was new of it, and comparisons of the two are about
their members. -/
structure TakesAll (s t : IdSet e) : Prop where
  members (a : Id e) : a ∈ (s.addAll t).2 ↔ a ∈ s ∨ a ∈ t
  news (a : Id e) : a ∈ (s.addAll t).1 ↔ a ∈ t ∧ a ∉ s
  again : (s.addAll t).2.addAll t = (empty, (s.addAll t).2)
  kept : (s.addAll t).1 = empty → (s.addAll t).2 = s
  intersects : s.intersects t = true ↔ ∃ a, a ∈ s ∧ a ∈ t
  isSubset : s.isSubset t = true ↔ ∀ a, a ∈ s → a ∈ t
  equal : s = t ↔ ∀ a, a ∈ s ↔ a ∈ t

theorem takes (s : IdSet e) (o : Id e) : s.Takes o :=
  ⟨contains_iff, add_eq_true_iff, fun _ => mem_add, add_of_mem⟩

theorem takesAll (s t : IdSet e) : s.TakesAll t where
  members _ := mem_addAll
  news _ := mem_news
  again := addAll_again s t
  kept none := addAll_of_subset (news_eq_empty_iff.1 none)
  intersects := intersects_iff
  isSubset := isSubset_iff
  equal := eq_iff_mem

/-- Whatever the recipes, their sets are ascending lists of the objects put in, they take in objects and
sets and tell what is new of them, and they are equal exactly when the same objects are put in. -/
theorem takes_of_recipes (r r' : Recipe e) :
    Ascending r.set.toList ∧ (∀ a, a ∈ r.set ↔ r.Puts a) ∧ (∀ o, r.set.Takes o) ∧
      r.set.TakesAll r'.set ∧ (r.set = r'.set ↔ ∀ a, r.Puts a ↔ r'.Puts a) :=
  ⟨r.set.ascending, r.mem_set, takes r.set, takesAll r.set r'.set, Recipe.set_eq_iff⟩

/-- The common member is kept once, and the other one is new, though it stands before the last. -/
example : (IdSet.ofList [⟨5⟩, ⟨1⟩, ⟨5⟩]).addAll (.ofList [⟨3⟩, ⟨1⟩]) =
    ((.ofList [⟨3⟩], .ofList [⟨1⟩, ⟨3⟩, ⟨5⟩]) : ObjectSet × ObjectSet) := by
  decide

end IdSet

end PointsTo
