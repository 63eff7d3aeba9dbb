import PointsTo.IdSet

/-!
# Worklists

Pending propagations, first in, first out. The queue is kept in two lists, the second of them
backwards, so that both ends are at hand; `toList` is the queue from its head on.
-/

namespace PointsTo

/-- Objects that are to be added to the set of a location. -/
structure Pending where
  target : PointerId
  objects : ObjectSet
deriving DecidableEq

/-- Pending propagations in two lists. -/
structure Worklist where
  /-- The head of the queue. -/
  front : List Pending
  /-- The rest of the queue, the last entry first. -/
  back : List Pending

namespace Worklist

/-- The empty queue. -/
def empty : Worklist := ⟨[], []⟩

/-- The entries from the head of the queue on. -/
def toList (w : Worklist) : List Pending :=
  w.front ++ w.back.reverse

/-- The number of entries. -/
def size (w : Worklist) : Nat :=
  w.front.length + w.back.length

/-- Adds an entry at the end. -/
def add (w : Worklist) (e : Pending) : Worklist :=
  { w with back := e :: w.back }

/-- The head of the queue and the rest of it. -/
def poll (w : Worklist) : Option (Pending × Worklist) :=
  match w.front with
  | e :: front => some (e, ⟨front, w.back⟩)
  | [] =>
    match w.back.reverse with
    | e :: front => some (e, ⟨front, []⟩)
    | [] => none

@[simp]
theorem toList_empty : empty.toList = [] := rfl

@[simp]
theorem toList_add (w : Worklist) (e : Pending) : (w.add e).toList = w.toList ++ [e] := by
  simp [toList, add]

theorem poll_eq_none_iff {w : Worklist} : w.poll = none ↔ w.toList = [] := by
  obtain ⟨front, back⟩ := w
  cases front with
  | cons e front => simp [poll, toList]
  | nil =>
    cases h : back.reverse with
    | nil => simp [poll, toList, h]
    | cons e front => simp [poll, toList, h]

theorem toList_eq_cons_of_poll {w w' : Worklist} {e : Pending} (h : w.poll = some (e, w')) :
    w.toList = e :: w'.toList := by
  obtain ⟨front, back⟩ := w
  cases front with
  | cons e' front =>
    simp only [poll, Option.some.injEq, Prod.mk.injEq] at h
    obtain ⟨rfl, rfl⟩ := h
    simp [toList]
  | nil =>
    cases hb : back.reverse with
    | nil => simp [poll, hb] at h
    | cons e' front =>
      simp only [poll, hb, Option.some.injEq, Prod.mk.injEq] at h
      obtain ⟨rfl, rfl⟩ := h
      simp [toList, hb]

theorem size_eq_length_toList (w : Worklist) : w.size = w.toList.length := by
  simp [size, toList]

end Worklist

end PointsTo
