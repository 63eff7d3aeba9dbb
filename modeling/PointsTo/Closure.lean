import PointsTo.Table

/-!
# Breadth-first closure

All keys that can be reached from some seeds through a successor function, breadth first. The table
of the keys found so far is at the same time the queue: the keys before a position have been
expanded, those from it on are waiting.
-/

namespace PointsTo

namespace Table

variable {κ ε : Type} [Keyed κ]

/-- Expands the keys from position `i` on, in order, adding new successors at the end. At most
`bound` keys are expanded. -/
def expandFrom (next : κ → Except ε (List κ)) : Nat → Nat → Table κ → Except ε (Table κ)
  | 0, _, t => .ok t
  | bound + 1, i, t =>
    match t.get? i with
    | none => .ok t
    | some k => do expandFrom next bound (i + 1) (t.insertAll (← next k))

end Table

/-- The keys that can be reached from the seeds, in breadth-first order. The bound is a number of
keys that have successors; one more is expanded, so that a key without an entry is noticed. -/
def closure {κ ε : Type} [Keyed κ] (next : κ → Except ε (List κ)) (bound : Nat) (seeds : List κ) :
    Except ε (Table κ) :=
  Table.expandFrom next (bound + 1) 0 (Table.ofList seeds)

end PointsTo
