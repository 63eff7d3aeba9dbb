import PointsTo.Proofs.Analysis.Failure
import PointsTo.Proofs.Analysis.Interleaving
import PointsTo.Proofs.Solver.Accrual

/-!
# Analyses only grow

Whatever operations a user of an analysis calls, in whatever order, and whether they succeed or report
a failure: an operation that comes back leaves a state that has all that the state before it had, under
the same identifiers. So no fact that has been reported is withdrawn later.
-/

namespace PointsTo

open Relation (ReflTransGen)

variable {P : Problem} {q : Policy}

namespace Operation

open SolverState (Begun)

variable {s s' : SolverState P}

/-- A user may ask for the calls on an object that the receiver variable does not have. -/
theorem run_begun (o : Operation) : Solve.GoesBy (Begun True) s (o.run : Solve P Unit) := by
  cases o with
  | start => exact Solve.start_begun
  | step => exact Solve.step_justified.begun.bind fun _ _ _ _ => .pure ()
  | solve => exact Solve.solve_begun
  | addReachable m => exact (Solve.addReachable_justified m).begun
  | csMethod c m => exact (Solve.csMethod_justified c m).begun.bind fun _ _ _ _ => .pure ()
  | pointer k => exact (Solve.pointer_justified k).begun.bind fun _ _ _ _ => .pure ()
  | addFlow source target =>
    exact (Solve.addFlow_justified source target).begun.bind fun _ _ _ _ => .pure ()
  | propagate p objects =>
    exact (Solve.propagate_justified p objects).begun.bind fun _ _ _ _ => .pure ()
  | processCall c v recv => exact (Solve.processCall_justified (Or.inl trivial)).begun

theorem comesBack_of_after {o : Operation} (came : o.after s = some s') :
    Solve.ComesBack o.run s s' := by
  rw [after] at came
  split at came
  · rename_i run
    exact Or.inl ⟨_, Option.some.inj came ▸ run⟩
  · rename_i run
    exact Or.inr (Or.inl ⟨_, Option.some.inj came ▸ run⟩)
  · rename_i run
    exact Or.inr (Or.inr (Option.some.inj came ▸ run))
  · cases came

end Operation

namespace SolverState

variable {s s' : SolverState P} {l : List Operation}

theorem begun_of_afterAll (came : s.afterAll l = some s') : ReflTransGen (Begun True) s s' := by
  induction l generalizing s with
  | nil =>
    obtain rfl := Option.some.inj came
    exact .refl
  | cons o l ih =>
    rw [afterAll, List.foldlM_cons] at came
    obtain ⟨s₁, first, rest⟩ := Option.bind_eq_some_iff.1 came
    exact (o.run_begun s₁ (Operation.comesBack_of_after first)).trans (ih rest)

theorem accrues_of_afterAll_afterAll (answers : P.selector.Answers q)
    (perSite : P.heapModel.PerSite) {before after : List Operation}
    (came : (initial P).afterAll before = some s) (came' : s.afterAll after = some s') :
    s.Accrues s' := by
  have heap := (grows_of_begun answers perSite .initial (begun_of_afterAll came)).1
  have indexed := (callGraph_grows_of_changes (changes_of_afterAll came) CallGraph.indexed_empty).1
  exact accrues_of_begun answers perSite heap indexed (begun_of_afterAll came')

end SolverState

/-! ## Analyses of built programs -/

/-- A run, and then a method that is made reachable by hand. -/
def reachAfterRun : List Operation :=
  [.solve, .addReachable ⟨1⟩]

namespace Config

variable {p : Program}

/-- Whatever operations are called on an analysis, and whatever operations are called after them: if
all come back, nothing has been taken back in between, and no counter has gone down. -/
theorem accrues_of_afterAll (c : Config) (built : p.Built) :
    ∃ h, Hierarchy.ofProgram p = .ok h ∧ h.program = p ∧
      ∀ (before after : List Operation) (s s' : SolverState (c.problem .bySite h)),
        (SolverState.initial _).afterAll before = some s → s.afterAll after = some s' →
          s.Accrues s' := by
  obtain ⟨h, hierarchy, same⟩ := Hierarchy.exists_ofProgram built.wellFormed.toChecked
  exact ⟨h, hierarchy, same, fun before after s s' came came' =>
    SolverState.accrues_of_afterAll_afterAll (Selector.ofStrategy_answers c.strategy c.heapDepth)
      HeapModel.bySite_perSite came came'⟩

/-- The run of the example fails when one method is reachable. -/
theorem accrues_of_afterAll_reachAfterRun : halfSeeded.Built ∧
    ∃ h, ∃ s s' : SolverState (Config.default.problem .bySite h),
      Hierarchy.ofProgram halfSeeded = .ok h ∧
      (SolverState.initial _).afterAll [.csMethod .empty ⟨0⟩] = some s ∧
      s.afterAll reachAfterRun = some s' ∧ s.Accrues s' ∧
      s.callGraph.reachable.size = 0 ∧ s'.callGraph.reachable.size = 2 := by
  obtain ⟨h, hierarchy, -, accrues⟩ := accrues_of_afterAll Config.default built_halfSeeded
  have runs : halfSeeded.passes (fun h =>
      match (SolverState.initial (Config.default.problem .bySite h)).afterAll
        [.csMethod .empty ⟨0⟩] with
      | none => false
      | some s => match s.afterAll reachAfterRun with
        | none => false
        | some s' => s.callGraph.reachable.size == 0 && s'.callGraph.reachable.size == 2) = true := by
    decide +kernel
  have runs := Program.test_of_passes hierarchy runs
  split at runs
  · cases runs
  · rename_i s came
    split at runs
    · cases runs
    · rename_i s' came'
      simp only [Bool.and_eq_true, beq_iff_eq] at runs
      exact ⟨built_halfSeeded, h, s, s', hierarchy, came, came', accrues _ _ s s' came came', runs⟩

end Config

end PointsTo
