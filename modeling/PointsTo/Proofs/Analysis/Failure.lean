import PointsTo.Proofs.Analysis.Solution
import PointsTo.Proofs.Solver.Containers
import PointsTo.Proofs.Solver.Linking

/-!
# Runs after a failure

An operation that reports a failure leaves its work half done, and the analysis counts as started. What
it has left undone is not taken up again: statements after a call that cannot be made are not seeded,
and callees on the stack of methods to visit are forgotten. A later run may succeed nevertheless. It
ends with a solution of the inclusion rules exactly if no operation has failed before.
-/

namespace PointsTo

open Inclusion

variable {P : Problem} {q : Policy}

/-- An operation succeeds or fails, and leaves a state behind. -/
inductive Solve.Results {α : Type} (x : Solve P α) (s : SolverState P) :
    Bool → SolverState P → Prop where
  | ok {a : α} {s' : SolverState P} (run : x s = .ok a s') : Results x s false s'
  | error {e : Stop} {s' : SolverState P} (run : x s = .error e s') : Results x s true s'

/-- The states that calls of the operations lead to, in any order, each with the answer to whether a
call has failed. -/
inductive SolverState.Called : Bool → SolverState P → Prop where
  | initial : Called false (.initial P)
  | start {failed fails : Bool} {s s' : SolverState P} (before : Called failed s)
      (results : Solve.Results Solve.start s fails s') : Called (failed || fails) s'
  | step {failed fails : Bool} {s s' : SolverState P} (before : Called failed s)
      (results : Solve.Results Solve.step s fails s') : Called (failed || fails) s'
  | solve {failed fails : Bool} {s s' : SolverState P} (before : Called failed s)
      (results : Solve.Results Solve.solve s fails s') : Called (failed || fails) s'

namespace Solve

variable {α : Type} {s s' : SolverState P} {x : Solve P α}

theorem Results.leads {fails : Bool} (results : Results x s fails s') : Leads x s s' := by
  cases results with
  | ok run => exact Or.inl ⟨_, run⟩
  | error run => exact Or.inr ⟨_, run⟩

theorem Leads.eq_of_ok (leads : Leads x s s') {a : α} {s₁ : SolverState P}
    (run : x s = .ok a s₁) : s' = s₁ := by
  rcases leads with ⟨_, run'⟩ | ⟨_, run'⟩
  · rw [run] at run'
    cases run'
    rfl
  · rw [run] at run'
    cases run'

theorem Leads.eq_of_error (leads : Leads x s s') {e : Stop} {s₁ : SolverState P}
    (run : x s = .error e s₁) : s' = s₁ := by
  rcases leads with ⟨_, run'⟩ | ⟨_, run'⟩
  · rw [run] at run'
    cases run'
  · rw [run] at run'
    cases run'
    rfl

theorem Results.eq_ok (results : Results x s false s') : ∃ a, x s = .ok a s' := by
  cases results with
  | ok run => exact ⟨_, run⟩

theorem Results.eq_error (results : Results x s true s') : ∃ e, x s = .error e s' := by
  cases results with
  | error run => exact ⟨_, run⟩

end Solve

namespace SolverState

variable {s s' : SolverState P} {failed : Bool}

theorem Called.reached (called : Called failed s) : s.Reached := by
  induction called with
  | initial => exact .initial
  | start _ results ih => exact .start ih results.leads
  | step _ results ih => exact .step ih results.leads
  | solve _ results ih => exact .solve ih results.leads

/-! ## Without a failure -/

/-- Nothing has been left undone: all that a state says is handled, all callees are reachable, and the
entries can run once the analysis has started. Before that nothing is pending. -/
structure Settled (q : Policy) (s : SolverState P) : Prop where
  handled {f : Fact} : s.Holds f → s.Handled q f
  answered {kind : CallKind} {site : CallPoint} {a : Activation} :
    s.Holds (.calls kind site a) → s.Holds (.reachable a)
  idle : s.initialized = false → s.worklist.toList = []
  entries : s.initialized = true → P.program.entries ≠ []
  entered {m : MethodId} : s.initialized = true → m ∈ P.program.entries →
    s.Holds (.reachable ⟨[], m⟩)

theorem settled_initial : (initial P).Settled q where
  handled holds := absurd holds (not_holds_initial _)
  answered holds := absurd holds (not_holds_initial _)
  idle _ := rfl
  entries started := by cases started
  entered started := by cases started

/-- Progress after a start leaves nothing undone. -/
theorem Settled.progress (settled : s.Settled q) (progress : s.Progress q [] s')
    (started : s'.initialized = true)
    (entered : s.initialized = false →
      P.program.entries ≠ [] ∧ ∀ m ∈ P.program.entries, s'.Holds (.reachable ⟨[], m⟩)) :
    s'.Settled q where
  handled holds := by
    rcases progress.handled holds with old | done
    · exact progress.toGrows.handled (settled.handled old)
    · exact done
  answered holds := by
    rcases progress.answered holds with old | runs | ⟨m, owed, -⟩
    · exact progress.toGrows.holds (settled.answered old)
    · exact runs
    · exact absurd owed List.not_mem_nil
  idle fresh := by
    rw [started] at fresh
    cases fresh
  entries _ := by
    cases before : s.initialized with
    | false => exact (entered before).1
    | true => exact settled.entries before
  entered _ listed := by
    cases before : s.initialized with
    | false => exact (entered before).2 _ listed
    | true => exact progress.toGrows.holds (settled.entered before listed)

variable (lawful : P.Lawful q)
include lawful

/-- Calls that all succeed leave nothing undone. -/
theorem Called.settled (called : Called failed s) (succeeded : failed = false) : s.Settled q := by
  have fits := lawful.program.fits
  induction called with
  | initial => exact settled_initial
  | @start failed fails s s' before results ih =>
    obtain ⟨rfl, rfl⟩ := Bool.or_eq_false_iff.1 succeeded
    obtain ⟨a, run⟩ := results.eq_ok
    have meets := Solve.start_meets lawful (before.reached.grounded lawful)
    obtain ⟨-, progress, entered⟩ := meets.ok run
    exact (ih rfl).progress progress (Solve.start_initialized fits a s' run) entered
  | @step failed fails s s' before results ih =>
    obtain ⟨rfl, rfl⟩ := Bool.or_eq_false_iff.1 succeeded
    obtain ⟨again, run⟩ := results.eq_ok
    have settled := ih rfl
    cases started : s.initialized with
    | false =>
      rw [Solve.step_of_empty (settled.idle started)] at run
      cases run
      exact settled
    | true =>
      have meets := Solve.step_meets lawful (before.reached.grounded lawful)
        (before.reached.indexed lawful)
      obtain ⟨-, progress, -⟩ := meets.ok run
      refine settled.progress progress (Solve.step_initialized fits started again s' run) ?_
      rw [started]
      exact fun fresh => by cases fresh
  | @solve failed fails s s' before results ih =>
    obtain ⟨rfl, rfl⟩ := Bool.or_eq_false_iff.1 succeeded
    obtain ⟨a, run⟩ := results.eq_ok
    have meets := Solve.solve_meets lawful fits (before.reached.grounded lawful)
      (before.reached.indexed lawful)
    obtain ⟨-, progress, -, entered⟩ := meets.ok run
    exact (ih rfl).progress progress (Solve.solve_initialized fits a s' run) entered

/-- A run after calls that have all succeeded ends with a solution. -/
theorem Called.finished (called : Called false s) (run : Solve.solve s = .ok () s') :
    s'.Finished q := by
  have fits := lawful.program.fits
  have called' : Called false s' := .solve called (.ok run)
  have settled := called'.settled lawful rfl
  have started := Solve.solve_initialized fits () s' run
  have meets := Solve.solve_meets lawful fits (called.reached.grounded lawful)
    (called.reached.indexed lawful)
  have empty := (meets.ok run).2.2.1
  obtain ⟨grounded', moved'⟩ := called'.reached.grounded_moved lawful
  exact ⟨grounded', delivering_of_changes moved'.changes delivering_initial, empty,
    settled.handled, settled.answered, settled.entries started, settled.entered started⟩

omit lawful

/-! ## After a failure -/

/-- A call of a grounded state passes its arguments and its receiver. -/
theorem Grounded.passes (grounded : s.Grounded q) {kind : CallKind} {t t' : Trail} {i : InvokeId}
    {callee : MethodId} {call : Invoke} {method : Method}
    (holds : s.Holds (.calls kind ⟨t, i⟩ ⟨t', callee⟩))
    (described : P.program.invokes[i.index]? = some call)
    (declared : P.program.methods[callee.index]? = some method) :
    call.args.length = method.params.length ∧ (call.kind ≠ .static → method.receiver ≠ none) := by
  obtain ⟨e, listed, -, site, read⟩ := holds
  obtain ⟨site', a, point, activation, callable⟩ := grounded.passing e listed
  rw [site] at point
  rw [read] at activation
  obtain rfl := Option.some.inj point
  obtain rfl := Option.some.inj activation
  exact callable call described method declared

/-- A solution has the call that cannot be made, and no state has it. -/
theorem Grounded.not_closed (grounded : s.Grounded q) (bad : BadCall P.hierarchy q) :
    ¬Closed P.hierarchy q s.Holds := by
  intro closed
  cases bad with
  | static reached site kind target declared arity =>
    have called := closed.of_derivable (.one (.callStatic site kind target) reached)
    exact arity (grounded.passes called site.call declared).1
  | onObject reached site receiver held target declared unfit =>
    have called := closed.of_derivable (.two (.callOn site receiver target) reached held)
    obtain ⟨arity, bound⟩ := grounded.passes called site.call declared
    exact unfit.elim (bound target.dynamic) fun differs => differs arity

section Entries

variable (none : P.program.entries = [])
include none

theorem start_initial : Solve.start (SolverState.initial P) =
    .error (.failed .noEntryMethod) (SolverState.initial P) := by
  rw [Solve.start, Solve.bind_run, Solve.get_run]
  simp [SolverState.initial, none]
  rfl

theorem solve_initial : Solve.solve (SolverState.initial P) =
    .error (.failed .noEntryMethod) (SolverState.initial P) := by
  rw [Solve.solve, Solve.bind_run, start_initial none]

/-- An analysis of a program without entries never starts. -/
theorem Reached.eq_initial (reached : s.Reached) : s = SolverState.initial P := by
  induction reached with
  | initial => rfl
  | start _ leads ih =>
    obtain rfl := ih
    exact leads.eq_of_error (start_initial none)
  | step _ leads ih =>
    obtain rfl := ih
    exact leads.eq_of_ok (Solve.step_of_empty rfl)
  | solve _ leads ih =>
    obtain rfl := ih
    exact leads.eq_of_error (solve_initial none)

end Entries

variable (regular : P.Regular q)
include regular

/-- An operation fails because there is no entry or because a call cannot be made. -/
theorem Reached.badCall (reached : s.Reached) {e : Stop} (stops : s.Stops e) :
    P.program.entries = [] ∨ BadCall P.hierarchy q := by
  obtain ⟨rounds, excused⟩ := reached.excused regular stops
  cases e with
  | outOfRange r => exact False.elim excused
  | outOfRounds => exact absurd rfl rounds
  | failed e =>
    cases e with
    | noEntryMethod => exact Or.inl excused
    | missingReceiver method => exact Or.inr (LacksReceiver.badCall excused)
    | arityMismatch callSite callee expected found => exact Or.inr excused

/-- A call has failed because there is no entry or because a call cannot be made. -/
theorem Called.badCall (called : Called failed s) (happened : failed = true) :
    P.program.entries = [] ∨ BadCall P.hierarchy q := by
  induction called with
  | initial => cases happened
  | start before results ih =>
    rcases Bool.or_eq_true_iff.1 happened with rfl | rfl
    · exact ih rfl
    · obtain ⟨e, run⟩ := results.eq_error
      exact before.reached.badCall regular ⟨_, Or.inl run⟩
  | step before results ih =>
    rcases Bool.or_eq_true_iff.1 happened with rfl | rfl
    · exact ih rfl
    · obtain ⟨e, run⟩ := results.eq_error
      exact before.reached.badCall regular ⟨_, Or.inr (Or.inl run)⟩
  | solve before results ih =>
    rcases Bool.or_eq_true_iff.1 happened with rfl | rfl
    · exact ih rfl
    · obtain ⟨e, run⟩ := results.eq_error
      exact before.reached.badCall regular ⟨_, Or.inr (Or.inr run)⟩

/-- A run after a failure, if it succeeds, does not end with a solution. -/
theorem Called.not_closed (called : Called true s) (run : Solve.solve s = .ok () s') :
    ¬Closed P.hierarchy q s'.Holds := by
  have grounded : s'.Grounded q :=
    (Called.solve called (.ok run)).reached.grounded regular.toLawful
  rcases called.badCall regular rfl with none | bad
  · rw [called.reached.eq_initial none, solve_initial none] at run
    cases run
  · exact grounded.not_closed bad

end SolverState

/-! ## Analyses of built programs -/

/-- A main method calls two static methods, the second with too few arguments, and allocates an object
afterwards. -/
def halfSeeded : Program :=
  (Program.ofDeclarations? [
    .addClass "A" none false,
    .addMethod ⟨0⟩ ⟨"void main()"⟩ true [],
    .addMethod ⟨0⟩ ⟨"void helper()"⟩ true [],
    .addMethod ⟨0⟩ ⟨"void take(A)"⟩ true ["a"],
    .addEntry ⟨0⟩,
    .var ⟨0⟩ "x",
    .addInvoke ⟨0⟩ .static ⟨⟨0⟩, ⟨"void helper()"⟩⟩ none [] none,
    .addInvoke ⟨0⟩ .static ⟨⟨0⟩, ⟨"void take(A)"⟩⟩ none [] none,
    .addStmt ⟨0⟩ (.new ⟨1⟩ (.ref ⟨0⟩))]).getD .empty

theorem built_halfSeeded : halfSeeded.Built :=
  Program.built_of_ofDeclarations? (by decide +kernel)

/-- The first run of its analysis fails, and the second succeeds with a call of a method that is not
reachable. -/
theorem exists_runs_halfSeeded {h : Hierarchy}
    (hierarchy : Hierarchy.ofProgram halfSeeded = .ok h) :
    ∃ e, ∃ s s' : SolverState (Config.default.problem .bySite h),
      Solve.solve.run (.initial _) = .error (.failed e) s ∧ Solve.solve.run s = .ok () s' ∧
      ∃ edge ∈ s'.callGraph.edges.toList, edge.callee ∉ s'.callGraph.reachable.toList := by
  have runs : halfSeeded.passes (fun h =>
      match Solve.solve.run (.initial (Config.default.problem .bySite h)) with
      | .error (.failed _) s => Solve.passes Solve.solve s fun s' =>
          s'.callGraph.edges.toList.any fun e => !s'.callGraph.isReachable e.callee
      | _ => false) = true := by
    decide +kernel
  have runs := Program.test_of_passes hierarchy runs
  split at runs
  · rename_i e s first
    obtain ⟨⟨⟩, s', second, unreached⟩ := Solve.exists_of_passes runs
    obtain ⟨edge, listed, absent⟩ := List.any_eq_true.1 unreached
    refine ⟨e, s, s', first, second, edge, listed, ?_⟩
    rw [← CallGraph.isReachable_iff]
    simpa using absent
  · cases runs

namespace Config

variable {p : Program}

/-- After calls of the operations, a run that succeeds has delivered everything, and it ends with a
solution of the inclusion rules exactly if no call has failed. -/
theorem closed_iff_of_called (c : Config) (built : p.Built) :
    ∃ h, Hierarchy.ofProgram p = .ok h ∧ h.program = p ∧
      ∀ (failed : Bool) (s s' : SolverState (c.problem .bySite h)), s.Called failed →
        Solve.solve.run s = .ok () s' →
          s'.worklist.toList = [] ∧ (Closed h c.policy s'.Holds ↔ failed = false) := by
  obtain ⟨h, hierarchy, same⟩ := Hierarchy.exists_ofProgram built.wellFormed.toChecked
  have regular := c.problem_regular built hierarchy
  have lawful := regular.toLawful
  refine ⟨h, hierarchy, same, fun failed s s' called run => ⟨?_, ?_⟩⟩
  · have meets := Solve.solve_meets lawful lawful.program.fits (called.reached.grounded lawful)
      (called.reached.indexed lawful)
    exact (meets.ok run).2.2.1
  · cases failed with
    | false => exact iff_of_true ((called.finished lawful run).closed lawful) rfl
    | true => exact iff_of_false (called.not_closed regular run) Bool.noConfusion

/-- A run of an analysis that has not been called before ends with a solution. -/
theorem closed_iff_of_called_identityCall : identityCall.Built ∧
    ∃ h, ∃ s s' : SolverState (Config.default.problem .bySite h),
      Hierarchy.ofProgram identityCall = .ok h ∧ s.Called false ∧ Solve.solve.run s = .ok () s' ∧
      s'.worklist.toList = [] ∧ Closed h Config.default.policy s'.Holds := by
  obtain ⟨h, hierarchy, -, result⟩ := closed_iff_of_called Config.default built_identityCall
  obtain ⟨s, run⟩ := exists_solve_identityCall hierarchy
  obtain ⟨empty, closed⟩ := result false _ s .initial run
  exact ⟨built_identityCall, h, _, s, hierarchy, .initial, run, empty, closed.2 rfl⟩

/-- A run after a failure may succeed and yet leave a called method unreached. -/
theorem exists_unreached_after_failure : halfSeeded.Built ∧
    ∃ h, ∃ s s' : SolverState (Config.default.problem .bySite h),
      Hierarchy.ofProgram halfSeeded = .ok h ∧ s.Called true ∧ Solve.solve.run s = .ok () s' ∧
      ¬Closed h Config.default.policy s'.Holds ∧
      ∃ e ∈ s'.callGraph.edges.toList, e.callee ∉ s'.callGraph.reachable.toList := by
  obtain ⟨h, hierarchy, -⟩ := Hierarchy.exists_ofProgram built_halfSeeded.wellFormed.toChecked
  obtain ⟨e, s, s', first, second, unreached⟩ := exists_runs_halfSeeded hierarchy
  have called : s.Called true := .solve .initial (.error first)
  have regular := Config.default.problem_regular built_halfSeeded hierarchy
  exact ⟨built_halfSeeded, h, s, s', hierarchy, called, second, called.not_closed regular second,
    unreached⟩

end Config

end PointsTo
