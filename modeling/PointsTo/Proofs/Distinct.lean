import PointsTo.Distinct
import PointsTo.Proofs.Table

/-!
# Collecting without repeats

Collecting the values of a list keeps those that are there already and puts each new one behind them,
once. The entries of a table are collected in this way.
-/

namespace PointsTo

section Lists

variable {α : Type} [DecidableEq α] {l known : List α} {a : α}

theorem prefix_addNew (l : List α) (a : α) : l <+: addNew l a := by
  unfold addNew
  split
  · exact List.prefix_rfl
  · exact List.prefix_append l [a]

theorem prefix_foldl_addNew (l known : List α) : known <+: l.foldl addNew known := by
  induction l generalizing known with
  | nil => exact List.prefix_rfl
  | cons a l ih => exact (prefix_addNew known a).trans (ih (addNew known a))

theorem mem_foldl_addNew : a ∈ l.foldl addNew known ↔ a ∈ known ∨ a ∈ l := by
  induction l generalizing known with
  | nil => simp
  | cons b l ih => rw [List.foldl_cons, ih, mem_addNew, List.mem_cons, or_assoc]

theorem mem_distinct : a ∈ distinct l ↔ a ∈ l := by
  rw [distinct, mem_foldl_addNew]
  simp

theorem nodup_foldl_addNew (nodup : known.Nodup) : (l.foldl addNew known).Nodup := by
  induction l generalizing known with
  | nil => exact nodup
  | cons a l ih => exact ih (nodup_addNew nodup)

theorem nodup_distinct (l : List α) : (distinct l).Nodup :=
  nodup_foldl_addNew List.nodup_nil

theorem foldl_addNew_of_nodup (nodup : (known ++ l).Nodup) :
    l.foldl addNew known = known ++ l := by
  induction l generalizing known with
  | nil => rw [List.foldl_nil, List.append_nil]
  | cons a l ih =>
    have absent : a ∉ known := fun mem =>
      (List.nodup_append.1 nodup).2.2 a mem a List.mem_cons_self rfl
    rw [List.foldl_cons, addNew, if_neg absent, List.append_cons known a l]
    rw [List.append_cons known a l] at nodup
    exact ih nodup

/-- Nothing is left out of a list without repeats. -/
theorem distinct_of_nodup (nodup : l.Nodup) : distinct l = l :=
  foldl_addNew_of_nodup nodup

end Lists

namespace Table

variable {κ : Type} [Keyed κ] [DecidableEq κ]

theorem toList_insert (t : Table κ) (k : κ) : (t.insert k).toList = addNew t.toList k := by
  by_cases h : k ∈ t.toList
  · rw [toList_insert_of_mem h, addNew, if_pos h]
  · rw [toList_insert_of_not_mem h, addNew, if_neg h]

theorem toList_insertAll (t : Table κ) (ks : List κ) :
    (t.insertAll ks).toList = ks.foldl addNew t.toList := by
  induction ks generalizing t with
  | nil => rfl
  | cons k ks ih =>
    show ((t.insert k).insertAll ks).toList = _
    rw [ih, toList_insert, List.foldl_cons]

theorem toList_ofList (ks : List κ) : (ofList ks).toList = distinct ks := by
  rw [ofList, toList_insertAll, toList_empty, distinct]

end Table

end PointsTo
