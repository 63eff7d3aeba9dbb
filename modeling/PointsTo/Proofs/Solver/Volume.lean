import PointsTo.Proofs.Counting
import PointsTo.Proofs.Solver.Delivery

/-!
# Counted objects

The number of propagated objects is the number of objects in all points-to sets together: an object
is counted when it comes into a set, and no set loses any.
-/

namespace PointsTo

namespace ElementStore

variable {s : ElementStore}

/-- The number of objects in all points-to sets together. -/
def volume (s : ElementStore) : Nat :=
  (s.pointsTo.toList.map IdSet.size).sum

theorem volume_pointer (s : ElementStore) (k : PointerKey) : (s.pointer k).2.volume = s.volume := by
  unfold pointer volume
  split
  · rfl
  · -- a new location has the empty set
    simp only [Array.toList_push, List.map_append, List.sum_append_nat]
    rfl

theorem volume_setPointsTo {p : PointerId} {set : ObjectSet} (found : s.pointsToSet p = .ok set)
    (added : ObjectSet) :
    (s.setPointsTo p (set.union added)).volume = s.volume + (set.fresh added).size := by
  have present : s.pointsTo.toList[p.index]? = some set := by
    rw [Array.getElem?_toList]
    exact pointsToSet_eq_ok_iff.1 found
  have replaced := sum_map_set (f := IdSet.size) present (set.union added)
  rw [IdSet.size_union] at replaced
  simp only [volume, setPointsTo, Array.toList_setIfInBounds]
  omega

end ElementStore

variable {P : Problem}

namespace SolverState

variable {s s' : SolverState P}

/-- The counter of propagated objects is in step with the points-to sets. -/
def Counted (s : SolverState P) : Prop :=
  s.stats.propagations = s.elements.volume

theorem counted_initial : (initial P).Counted := rfl

theorem Counted.propagated {p : PointerId} {known : ObjectSet} (counted : s.Counted)
    (objects : ObjectSet) (found : s.elements.pointsToSet p = .ok known) :
    (s.propagated p known objects).Counted := by
  by_cases none : (known.fresh objects).isEmpty
  · rw [SolverState.propagated, if_pos none]
    exact counted
  · rw [SolverState.propagated, if_neg none]
    have volume := ElementStore.volume_setPointsTo found objects
    show s.stats.propagations + (known.fresh objects).size = _
    rw [counted, volume]

theorem counted_of_change (change : Change s s') (counted : s.Counted) : s'.Counted := by
  cases change with
  | pointer k =>
    have volume := ElementStore.volume_pointer s.elements k
    exact Eq.trans counted volume.symm
  | propagate objects found => exact counted.propagated objects found
  | @deliver e rest known head found =>
    have taken : (s.taken rest).Counted := counted
    exact taken.propagated e.objects found
  | _ => exact counted

/-- Changes count what they add to points-to sets. -/
theorem counted_of_changes (changes : Changes s s') (counted : s.Counted) : s'.Counted :=
  changes.invariant (fun _ _ => counted_of_change) counted

end SolverState

end PointsTo
