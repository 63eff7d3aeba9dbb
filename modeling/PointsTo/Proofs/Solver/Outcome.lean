import PointsTo.Proofs.Solver.Fixpoint
import PointsTo.Proofs.Solver.Rounds

/-!
# Outcomes of runs

Every state that calls of the operations lead to is grounded, also after an error. A run stops early
only if there is no entry or if a call cannot be made, so its outcome is settled by the program and
the policy on contexts.
-/

namespace PointsTo

open Inclusion

variable {P : Problem} {q : Policy}

/-- An analysis that follows a policy and has enough rounds for its loops. -/
structure Problem.Regular (P : Problem) (q : Policy) : Prop extends P.Lawful q where
  rounds : roundLimit P.program.size q.strategy.depth ≤ P.limit

/-- A call has been reported that cannot be made. -/
def AnalysisError.IsBadCall : AnalysisError → Prop
  | .noEntryMethod => False
  | .missingReceiver _ => True
  | .arityMismatch _ _ _ _ => True

/-- An operation leads from one state to another, with a result or with an error. -/
def Solve.Leads {α : Type} (x : Solve P α) (s s' : SolverState P) : Prop :=
  (∃ a, x s = .ok a s') ∨ ∃ e, x s = .error e s'

/-- The states that calls of the operations lead to, in any order and whatever their results. -/
inductive SolverState.Reached : SolverState P → Prop where
  | initial : Reached (.initial P)
  | start {s s' : SolverState P} (before : Reached s) (leads : Solve.Leads Solve.start s s') :
      Reached s'
  | step {s s' : SolverState P} (before : Reached s) (leads : Solve.Leads Solve.step s s') :
      Reached s'
  | solve {s s' : SolverState P} (before : Reached s) (leads : Solve.Leads Solve.solve s s') :
      Reached s'

/-! ## States after calls -/

namespace Solve

variable {α : Type} {s s' : SolverState P} {x : Solve P α} {debt : α → List CsMethodId}
  {post : α → SolverState P → Prop} {bound : Nat} {spent : SolverState P → Prop}

theorem Meets.leads (meets : Meets q s x debt post) (moves : MovesFrom bound spent s 0 x)
    (leads : Leads x s s') : s'.Grounded q ∧ s.Moved bound 0 s' := by
  rcases leads with ⟨a, run⟩ | ⟨e, run⟩
  · exact ⟨(meets.ok run).1, moves.ok run⟩
  · obtain ⟨grounded, -, excused⟩ := meets.error run
    refine ⟨grounded, ?_⟩
    cases e with
    | failed e => exact moves.failed run
    | outOfRange r => exact False.elim excused
    | outOfRounds => exact (moves.outOfRounds run).1

/-- An operation stops early for a reason that the program gives, and not for want of rounds: a loop
without rounds has spent them on changes, of which there are too few. -/
theorem Meets.excused (regular : P.Regular q)
    (reached : (SolverState.initial P).Moved P.program.size 0 s) (meets : Meets q s x debt post)
    (moves : MovesFrom P.program.size (SolverState.Spent P.program.size) s 0 x) {e : Stop}
    (run : x s = .error e s') : e ≠ .outOfRounds ∧ P.Excuses q e := by
  obtain ⟨grounded, -, excused⟩ := meets.error run
  refine ⟨?_, excused⟩
  rintro rfl
  obtain ⟨moved, spent⟩ := moves.outOfRounds run
  have total := reached.trans moved
  exact SolverState.not_spent regular.toLawful grounded regular.rounds total spent

end Solve

namespace SolverState

variable {s : SolverState P}

/-- Calls lead to grounded states, by changes that pay for themselves. -/
theorem Reached.grounded_moved (lawful : P.Lawful q) (reached : s.Reached) :
    s.Grounded q ∧ (SolverState.initial P).Moved P.program.size 0 s := by
  have fits := lawful.program.fits
  induction reached with
  | initial => exact ⟨grounded_initial lawful, .refl _⟩
  | start _ leads ih =>
    obtain ⟨grounded, moved⟩ := ih
    have meets := Solve.start_meets lawful grounded
    obtain ⟨grounded', moved'⟩ := meets.leads (Solve.start_moves fits _) leads
    exact ⟨grounded', moved.trans moved'⟩
  | step _ leads ih =>
    obtain ⟨grounded, moved⟩ := ih
    have indexed := indexed_of_changes moved.changes FlowGraph.indexed_empty
    have meets := Solve.step_meets lawful grounded indexed
    obtain ⟨grounded', moved'⟩ := meets.leads (Solve.step_moves fits _) leads
    exact ⟨grounded', moved.trans moved'⟩
  | solve _ leads ih =>
    obtain ⟨grounded, moved⟩ := ih
    have indexed := indexed_of_changes moved.changes FlowGraph.indexed_empty
    have meets := Solve.solve_meets lawful fits grounded indexed
    obtain ⟨grounded', moved'⟩ := meets.leads (Solve.solve_moves fits _) leads
    exact ⟨grounded', moved.trans moved'⟩

theorem Reached.grounded (lawful : P.Lawful q) (reached : s.Reached) : s.Grounded q :=
  (reached.grounded_moved lawful).1

theorem Reached.indexed (lawful : P.Lawful q) (reached : s.Reached) : s.flow.Indexed :=
  indexed_of_changes (reached.grounded_moved lawful).2.changes FlowGraph.indexed_empty

/-- One of the operations stops early with an error. -/
def Stops (s : SolverState P) (e : Stop) : Prop :=
  ∃ s', Solve.start s = .error e s' ∨ Solve.step s = .error e s' ∨ Solve.solve s = .error e s'

/-- An operation that is called stops early for a reason that the program gives. -/
theorem Reached.excused (regular : P.Regular q) (reached : s.Reached) {e : Stop}
    (stops : s.Stops e) : e ≠ .outOfRounds ∧ P.Excuses q e := by
  have lawful := regular.toLawful
  have fits := lawful.program.fits
  obtain ⟨grounded, moved⟩ := reached.grounded_moved lawful
  have indexed := reached.indexed lawful
  obtain ⟨s', run | run | run⟩ := stops
  · have meets := Solve.start_meets lawful grounded
    exact meets.excused regular moved (Solve.start_moves fits s) run
  · have meets := Solve.step_meets lawful grounded indexed
    exact meets.excused regular moved (Solve.step_moves fits s) run
  · have meets := Solve.solve_meets lawful fits grounded indexed
    exact meets.excused regular moved (Solve.solve_moves fits s) run

end SolverState

/-! ## Results of runs -/

namespace Inclusion

variable {h : Hierarchy}

/-- Nothing can be derived without entries. -/
theorem entries_ne_nil_of_derivable {f : Fact} (derived : Derivable h q f) :
    h.program.entries ≠ [] := by
  induction derived with
  | step rule derived ih =>
    cases rule with
    | entry listed => exact List.ne_nil_of_mem listed
    | _ => exact ih _ List.mem_cons_self

theorem entries_ne_nil_of_badCall (bad : BadCall h q) : h.program.entries ≠ [] := by
  cases bad with
  | static reached => exact entries_ne_nil_of_derivable reached
  | onObject reached => exact entries_ne_nil_of_derivable reached

end Inclusion

namespace Problem

open SolverState

variable (regular : P.Regular q) {s : SolverState P}
include regular

theorem finished_of_solve (run : Solve.solve (initial P) = .ok () s) : s.Finished q :=
  SolverState.finished_of_solve regular.toLawful regular.program.fits run

/-- A run from the beginning stops early for a reason that the program gives. -/
theorem excuses_of_solve {e : Stop} (run : Solve.solve (initial P) = .error e s) :
    e ≠ .outOfRounds ∧ P.Excuses q e :=
  Reached.initial.excused regular ⟨s, Or.inr (Or.inr run)⟩

/-- A run from the beginning succeeds, or reports that there is no entry or that a call cannot be
made. -/
theorem solve_cases : (∃ s, Solve.solve (initial P) = .ok () s) ∨
    (∃ s, Solve.solve (initial P) = .error (.failed .noEntryMethod) s) ∨
    ∃ e s, e.IsBadCall ∧ Solve.solve (initial P) = .error (.failed e) s := by
  cases run : Solve.solve (initial P) with
  | ok a s => exact Or.inl ⟨s, rfl⟩
  | error e s =>
    obtain ⟨rounds, excused⟩ := excuses_of_solve regular run
    cases e with
    | failed e =>
      cases e with
      | noEntryMethod => exact Or.inr (Or.inl ⟨s, rfl⟩)
      | missingReceiver method => exact Or.inr (Or.inr ⟨.missingReceiver method, s, trivial, rfl⟩)
      | arityMismatch callSite callee expected found =>
        exact Or.inr (Or.inr ⟨.arityMismatch callSite callee expected found, s, trivial, rfl⟩)
    | outOfRange r => exact False.elim excused
    | outOfRounds => exact absurd rfl rounds

theorem entries_of_solve_noEntryMethod
    (run : Solve.solve (initial P) = .error (.failed .noEntryMethod) s) : P.program.entries = [] :=
  (excuses_of_solve regular run).2

theorem badCall_of_solve {e : AnalysisError} (bad : e.IsBadCall)
    (run : Solve.solve (initial P) = .error (.failed e) s) : BadCall P.hierarchy q := by
  have excused := (excuses_of_solve regular run).2
  cases e with
  | noEntryMethod => exact False.elim bad
  | missingReceiver method => exact LacksReceiver.badCall excused
  | arityMismatch callSite callee expected found => exact excused

/-- A run succeeds when there are entries and all calls can be made. -/
theorem exists_solve_eq_ok (entries : P.program.entries ≠ []) (fit : ¬BadCall P.hierarchy q) :
    ∃ s, Solve.solve (initial P) = .ok () s := by
  rcases solve_cases regular with done | ⟨s, run⟩ | ⟨e, s, bad, run⟩
  · exact done
  · exact absurd (entries_of_solve_noEntryMethod regular run) entries
  · exact absurd (badCall_of_solve regular bad run) fit

end Problem

end PointsTo
