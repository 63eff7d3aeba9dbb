import PointsTo.Proofs.Solver.Fixpoint

/-!
# Names of finished runs

A finished run has made a context, an object, a location and a flow edge for whatever the least
solution of the inclusion rules asks for. Grounded states make no others, so the sizes of these
tables are settled by the program and the policy on contexts.
-/

namespace PointsTo

open Inclusion

variable {P : Problem} {q : Policy}

namespace SolverState.Finished

variable {s : SolverState P} (lawful : P.Lawful q) (finished : s.Finished q)
include lawful finished

/-- Places that the least solution connects have a flow edge. -/
theorem flowsTo {l l' : Location} (connects : Flow P.hierarchy (P.Derives q) l l') :
    s.FlowsTo l l' :=
  finished.flowsTo_of_flow lawful (connects.mono fun _ => finished.holds lawful)

/-- Objects of the least solution have an identifier. -/
theorem exists_csObj {o : HeapObj} (made : Made P.hierarchy q o) : ∃ x, s.heapObj? x = some o := by
  obtain ⟨l, held⟩ := made
  obtain ⟨p, x, place, object, arrived⟩ := finished.holds lawful held
  exact ⟨x, object⟩

/-- Places of the least solution have an identifier. -/
theorem exists_pointer {l : Location} (met : Met P.hierarchy q l) :
    ∃ p, s.locationAt? p = some l := by
  cases met with
  | holds held =>
    obtain ⟨p, x, place, object, arrived⟩ := finished.holds lawful held
    exact ⟨p, place⟩
  | source connects =>
    obtain ⟨e, edge, source, target⟩ := finished.flowsTo lawful connects
    exact ⟨e.source, source⟩
  | target connects =>
    obtain ⟨e, edge, source, target⟩ := finished.flowsTo lawful connects
    exact ⟨e.target, target⟩
  | result called described assigned =>
    have wired : s.Wired _ _ := finished.handled (finished.holds lawful called)
    exact wired.target described assigned

/-- Contexts of the least solution have an identifier. -/
theorem exists_context {t : Trail} (used : Used P.hierarchy q t) : ∃ c, s.trail? c = some t := by
  cases used with
  | empty => exact ⟨.empty, trail?_eq_some_iff.2 ⟨[], s.contexts.first, rfl⟩⟩
  | runs reached =>
    obtain ⟨m, listed, read⟩ := finished.holds lawful reached
    obtain ⟨c, known, trail⟩ := activation?_eq_some_iff.1 read
    exact ⟨c, trail⟩
  | allocates reached stmt =>
    obtain ⟨x, object⟩ := finished.exists_csObj lawful ⟨_, .one (.new stmt) reached⟩
    obtain ⟨cs, obj, known, found, trail, site⟩ := heapObj?_eq_some_iff.1 object
    exact ⟨cs.context, trail⟩

end SolverState.Finished

end PointsTo
