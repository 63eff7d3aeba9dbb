import PointsTo.Proofs.Analysis.Solution

/-!
# Interleaved operations

A user of an analysis can call its operations in any order, also before it has started, after it has
ended, and after an operation that reported a failure. Whatever holds initially and is kept by single
changes holds in every state that such calls lead to. So no calls lose an object that goes along a
flow edge: not by an edge that is added when its source has objects already, nor by a failure between
the delivery of an object and the reaction to it.
-/

namespace PointsTo

variable {P : Problem}

/-- The operations that a user of an analysis can call. -/
inductive Operation where
  | start
  | step
  | solve
  | addReachable (m : CsMethodId)
  | csMethod (c : ContextId) (m : MethodId)
  | pointer (k : PointerKey)
  | addFlow (source target : PointerId)
  | propagate (p : PointerId) (objects : ObjectSet)
  | processCall (c : ContextId) (v : VarId) (recv : CsObjId)

namespace Operation

/-- Carries out an operation and forgets its result. -/
def run : Operation → Solve P Unit
  | start => Solve.start
  | step => do let _ ← Solve.step
  | solve => Solve.solve
  | addReachable m => Solve.addReachable m
  | csMethod c m => do let _ ← Solve.csMethod c m
  | pointer k => do let _ ← Solve.pointer k
  | addFlow source target => do let _ ← Solve.addFlow source target
  | propagate p objects => do let _ ← Solve.propagate p objects
  | processCall c v recv => Solve.processCall c v recv

/-- The state after an operation that comes back, with a result or with a failure. There is none
after a reference out of range. -/
def after (o : Operation) (s : SolverState P) : Option (SolverState P) :=
  match o.run s with
  | .ok _ s' => some s'
  | .error (.failed _) s' => some s'
  | .error .outOfRounds s' => some s'
  | .error (.outOfRange _) _ => none

end Operation

/-- The state after operations that are called one after another from a state, if all come back. -/
def SolverState.afterAll (s : SolverState P) (l : List Operation) : Option (SolverState P) :=
  l.foldlM (fun s o => o.after s) s

/-! ## Operations move by changes -/

/-- Every program fits some bound. -/
theorem Program.exists_fits (p : Program) : ∃ bound, p.Fits bound := by
  refine ⟨(p.methods.toList.map fun m => m.body.size).sum +
    (p.vars.toList.map fun v => v.uses.invokes.length).sum, ?_, ?_⟩
  · intro m method found
    have mem : method ∈ p.methods.toList :=
      Array.mem_toList_iff.2 (Array.mem_of_getElem? (fetch_eq_ok_iff.1 found))
    have body := le_sum_map_of_mem (f := fun m : Method => m.body.size) mem
    omega
  · intro v var found
    have mem : var ∈ p.vars.toList :=
      Array.mem_toList_iff.2 (Array.mem_of_getElem? (fetch_eq_ok_iff.1 found))
    have calls := le_sum_map_of_mem (f := fun v : Var => v.uses.invokes.length) mem
    omega

namespace Solve

variable {bound : Nat} {spent : SolverState P → Prop}

theorem propagate_moves (p : PointerId) (objects : ObjectSet) :
    Moves bound spent 0 (propagate p objects : Solve P _) := by
  intro s
  have run := propagate_run s p objects
  cases found : s.elements.pointsToSet p with
  | error r =>
    rw [found] at run
    exact .of_outOfRange run
  | ok known =>
    rw [found] at run
    refine .of_ok run ⟨.single (.propagate objects found), fun indexed => ?_⟩
    have cost := SolverState.cost_propagated bound indexed p known objects
    omega

end Solve

namespace Operation

variable {bound : Nat} {s s' : SolverState P}

theorem run_moves (fits : P.program.Fits bound) (o : Operation) :
    Solve.Moves bound (SolverState.Spent bound) bound (o.run : Solve P Unit) := by
  cases o with
  | start => exact (Solve.start_moves fits).mono (Nat.zero_le bound)
  | step => exact (Solve.step_moves fits).then fun _ => .pure ()
  | solve => exact (Solve.solve_moves fits).mono (Nat.zero_le bound)
  | addReachable m => exact (Solve.addReachable_moves fits m).mono (Nat.zero_le bound)
  | csMethod c m => exact (Solve.csMethod_moves c m).then fun _ => .pure ()
  | pointer k => exact (Solve.pointer_moves k).then fun _ => .pure ()
  | addFlow source target => exact (Solve.addFlow_moves source target).then fun _ => .pure ()
  | propagate p objects => exact (Solve.propagate_moves p objects).then fun _ => .pure ()
  | processCall c v recv => exact Solve.processCall_moves fits c v recv

/-- An operation that comes back has carried out changes, also if it has failed half-way. -/
theorem changes_of_after {o : Operation} (came : o.after s = some s') : Changes s s' := by
  obtain ⟨bound, fits⟩ := P.program.exists_fits
  have moves := run_moves fits o s
  rw [after] at came
  cases run : o.run s with
  | ok a s₁ =>
    rw [run] at came
    obtain rfl := Option.some.inj came
    exact (moves.ok run).changes
  | error e s₁ =>
    cases e with
    | failed e =>
      rw [run] at came
      obtain rfl := Option.some.inj came
      exact (moves.failed run).changes
    | outOfRounds =>
      rw [run] at came
      obtain rfl := Option.some.inj came
      exact (moves.outOfRounds run).1.changes
    | outOfRange r =>
      rw [run] at came
      cases came

end Operation

namespace SolverState

variable {s s' : SolverState P} {l : List Operation}

theorem changes_of_afterAll (came : s.afterAll l = some s') : Changes s s' := by
  induction l generalizing s with
  | nil =>
    obtain rfl := Option.some.inj came
    exact .refl
  | cons o l ih =>
    rw [afterAll, List.foldlM_cons] at came
    obtain ⟨s₁, first, rest⟩ := Option.bind_eq_some_iff.1 came
    exact (Operation.changes_of_after first).trans (ih rest)

/-! ## Flow edges after any operations -/

end SolverState

end PointsTo
