import PointsTo.Analysis
import PointsTo.Proofs.Solver.Outcome

/-!
# Solutions found by analyses

What a configured analysis of a built program finds, with one object for each allocation statement.
A run that succeeds ends with a solution of the inclusion rules. No state on the way says more than
the least solution does. Whether a run succeeds hangs on the least solution only, and not on the
order of its work.
-/

namespace PointsTo

open Inclusion

namespace SolverState

variable {P : Problem} {q : Policy} {s : SolverState P}

/-- Everything that a state says stands for something in the program, and no two of its objects stand
for the same. -/
structure Legible (s : SolverState P) : Prop where
  reachable : ∀ m ∈ s.callGraph.reachable.toList, ∃ a, s.activation? m = some a
  contains : ∀ p x, s.Contains p x → ∃ l o, s.locationAt? p = some l ∧ s.heapObj? x = some o
  callEdges : ∀ e ∈ s.callGraph.edges.toList, ∃ site a, s.callPoint? e.site = some site ∧
    s.activation? e.callee = some a
  distinct : s.DistinctSites

theorem Grounded.legible (lawful : P.Lawful q) (grounded : s.Grounded q) : s.Legible where
  reachable m listed := by
    obtain ⟨a, read, -⟩ := grounded.reachable m listed
    exact ⟨a, read⟩
  contains p x here := by
    obtain ⟨l, o, place, object, -⟩ := grounded.sent p x (Or.inl here)
    exact ⟨l, o, place, object⟩
  callEdges e listed := by
    obtain ⟨site, a, point, callee, -⟩ := grounded.callEdges e listed
    exact ⟨site, a, point, callee⟩
  distinct := grounded.distinctSites lawful

end SolverState

variable {p : Program}

namespace Config

/-- A configured analysis of a built program follows the policy of the configuration. -/
theorem problem_regular (c : Config) (built : p.Built) {h : Hierarchy}
    (hierarchy : Hierarchy.ofProgram p = .ok h) :
    (c.problem .bySite h).Regular c.policy where
  program := by
    have same := Hierarchy.program_of_ofProgram built.wellFormed.toChecked hierarchy
    show h.program.WellFormed
    rw [same]
    exact built.wellFormed
  selector := Selector.ofStrategy_follows c.strategy c.heapDepth
  heap := HeapModel.bySite_perSite
  rounds := Nat.le_refl _

end Config

/-! ## Examples -/

/-- The program of some declarations, if all are carried out and the program passes the checks. -/
def Program.ofDeclarations? (l : List Declaration) : Option Program := do
  let d ← (Draft.empty.declareAll l).2.toOption
  d.build.toOption

theorem Program.exists_draft_of_ofDeclarations? {l : List Declaration}
    (valid : (Program.ofDeclarations? l).isSome = true) :
    ∃ d, (Draft.empty.declareAll l).2 = .ok d ∧
      d.build = .ok ((Program.ofDeclarations? l).getD .empty) := by
  obtain ⟨p, found⟩ := Option.isSome_iff_exists.1 valid
  obtain ⟨d, declared, built⟩ := Option.bind_eq_some_iff.1 found
  rw [found]
  refine ⟨d, ?_, ?_⟩
  · cases drafted : (Draft.empty.declareAll l).2 with
    | ok d' =>
      rw [drafted] at declared
      rw [Option.some.inj declared]
    | error r =>
      rw [drafted] at declared
      cases declared
  · cases checked : d.build with
    | ok p' =>
      rw [checked] at built
      rw [Option.some.inj built]
      rfl
    | error e =>
      rw [checked] at built
      cases built

theorem Program.built_of_ofDeclarations? {l : List Declaration}
    (valid : (Program.ofDeclarations? l).isSome = true) :
    ((Program.ofDeclarations? l).getD .empty).Built :=
  ⟨l, exists_draft_of_ofDeclarations? valid⟩

/-- A test of the hierarchy of a program. -/
def Program.passes (p : Program) (test : Hierarchy → Bool) : Bool :=
  match Hierarchy.ofProgram p with
  | .ok h => test h
  | .error _ => false

theorem Program.test_of_passes {p : Program} {h : Hierarchy} {test : Hierarchy → Bool}
    (hierarchy : Hierarchy.ofProgram p = .ok h) (passed : p.passes test = true) : test h = true := by
  rwa [passes, hierarchy] at passed

/-- A test of the state that an operation leads to when it succeeds. -/
def Solve.passes {P : Problem} {α : Type} (x : Solve P α) (s : SolverState P)
    (test : SolverState P → Bool) : Bool :=
  match x.run s with
  | .ok _ s' => test s'
  | .error _ _ => false

theorem Solve.exists_of_passes {P : Problem} {α : Type} {x : Solve P α} {s : SolverState P}
    {test : SolverState P → Bool} (passed : passes x s test = true) :
    ∃ a s', x.run s = .ok a s' ∧ test s' = true := by
  unfold passes at passed
  split at passed
  · exact ⟨_, _, ‹_›, passed⟩
  · cases passed

/-- A main method allocates an object and calls a method on it that gives its argument back. -/
def identityCall : Program :=
  (Program.ofDeclarations? [
    .addClass "A" none false,
    .addMethod ⟨0⟩ ⟨"void main()"⟩ true [],
    .addMethod ⟨0⟩ ⟨"A same(A)"⟩ false ["x"],
    .addEntry ⟨0⟩,
    .var ⟨0⟩ "a",
    .var ⟨0⟩ "b",
    .addStmt ⟨0⟩ (.new ⟨2⟩ (.ref ⟨0⟩)),
    .addInvoke ⟨0⟩ .virtual ⟨⟨0⟩, ⟨"A same(A)"⟩⟩ (some ⟨2⟩) [⟨2⟩] (some ⟨3⟩),
    .addStmt ⟨1⟩ (.ret (some ⟨1⟩))]).getD .empty

theorem built_identityCall : identityCall.Built :=
  Program.built_of_ofDeclarations? (by decide +kernel)

/-- Its analysis with contexts of one receiver object succeeds. -/
theorem exists_solve_identityCall {h : Hierarchy}
    (hierarchy : Hierarchy.ofProgram identityCall = .ok h) :
    ∃ s, Solve.solve.run (.initial (Config.default.problem .bySite h)) = .ok () s := by
  have runs : identityCall.passes (fun h =>
      Solve.passes Solve.solve (.initial (Config.default.problem .bySite h)) fun _ => true) = true := by
    decide +kernel
  obtain ⟨⟨⟩, s, run, -⟩ := Solve.exists_of_passes (Program.test_of_passes hierarchy runs)
  exact ⟨s, run⟩

/-- If a program can be summarised, its analysis gives a result. -/
theorem Config.exists_analyze_of_summarize {c : Config} {p : Program} {h : Hierarchy}
    (hierarchy : Hierarchy.ofProgram p = .ok h) (summarized : (c.summarize p).isOk = true) :
    ∃ r, (c.problem .bySite h).analyze c.collectStats = .ok r := by
  cases done : (c.problem .bySite h).analyze c.collectStats with
  | ok r => exact ⟨r, rfl⟩
  | error e =>
    rw [summarize, hierarchy] at summarized
    simp only [bind, Except.bind, liftM, monadLift, MonadLift.monadLift, done] at summarized
    cases summarized

namespace Config

/-! ## Runs that succeed -/

/-- A run that succeeds has delivered everything, has run all entries in the empty context, and
leaves nothing for the inclusion rules to add. All its calls pass one argument for each parameter. -/
theorem closed_of_solve (c : Config) (built : p.Built) :
    ∃ h, Hierarchy.ofProgram p = .ok h ∧ h.program = p ∧
      ∀ s, Solve.solve.run (.initial (c.problem .bySite h)) = .ok () s →
        s.worklist.toList = [] ∧ s.Legible ∧
        (∀ m ∈ p.entries, s.Holds (.reachable ⟨[], m⟩)) ∧
        Closed h c.policy s.Holds ∧
        ∀ kind site a call method, s.Holds (.calls kind site a) →
          p.invokes[site.invoke.index]? = some call → p.methods[a.method.index]? = some method →
          call.args.length = method.params.length := by
  obtain ⟨h, hierarchy, same⟩ := Hierarchy.exists_ofProgram built.wellFormed.toChecked
  refine ⟨h, hierarchy, same, fun s run => ?_⟩
  have regular := c.problem_regular built hierarchy
  have finished := Problem.finished_of_solve regular run
  refine ⟨finished.empty, finished.grounded.legible regular.toLawful, ?_,
    finished.closed regular.toLawful, ?_⟩
  · intro m listed
    refine finished.entered ?_
    show m ∈ h.program.entries
    rw [same]
    exact listed
  · intro kind site a call method holds described declared
    rw [← same] at described declared
    exact length_args_of_calls (finished.not_badCall regular.toLawful)
      (finished.grounded.derives holds) described declared

theorem closed_of_solve_identityCall : identityCall.Built ∧
    ∃ h s, Hierarchy.ofProgram identityCall = .ok h ∧
      Solve.solve.run (.initial (Config.default.problem .bySite h)) = .ok () s ∧
      Closed h Config.default.policy s.Holds ∧ s.Holds (.reachable ⟨[], ⟨0⟩⟩) := by
  obtain ⟨h, hierarchy, -, result⟩ := closed_of_solve Config.default built_identityCall
  obtain ⟨s, run⟩ := exists_solve_identityCall hierarchy
  obtain ⟨-, -, entered, closed, -⟩ := result s run
  exact ⟨built_identityCall, h, s, hierarchy, run, closed, entered ⟨0⟩ (by decide +kernel)⟩

/-! ## States on the way -/

/-- Whatever the calls of the operations and their results, a state says only what the least solution
of the inclusion rules says, and so does everything on its worklist. A state that no rule adds to,
such as the one at the end of a run that succeeds, says all of it. -/
theorem derivable_of_reached (c : Config) (built : p.Built) :
    ∃ h, Hierarchy.ofProgram p = .ok h ∧ h.program = p ∧
      ∀ s : SolverState (c.problem .bySite h), s.Reached →
        (∀ m ∈ s.callGraph.reachable.toList, ∃ a, s.activation? m = some a ∧
          Derivable h c.policy (.reachable a)) ∧
        (∀ x o, s.Sent x o → ∃ l b, s.locationAt? x = some l ∧ s.heapObj? o = some b ∧
          Derivable h c.policy (.pointsTo l b)) ∧
        (∀ e ∈ s.callGraph.edges.toList, ∃ site a, s.callPoint? e.site = some site ∧
          s.activation? e.callee = some a ∧ Derivable h c.policy (.calls e.kind site a)) ∧
        (Closed h c.policy s.Holds → ∀ f, s.Holds f ↔ Derivable h c.policy f) ∧
        (Solve.solve.run (.initial (c.problem .bySite h)) = .ok () s →
          ∀ f, s.Holds f ↔ Derivable h c.policy f) := by
  obtain ⟨h, hierarchy, same⟩ := Hierarchy.exists_ofProgram built.wellFormed.toChecked
  refine ⟨h, hierarchy, same, fun s reached => ?_⟩
  have regular := c.problem_regular built hierarchy
  have grounded := reached.grounded regular.toLawful
  refine ⟨grounded.reachable, grounded.sent, grounded.callEdges, ?_, ?_⟩
  · exact fun closed f => ⟨grounded.derives, closed.of_derivable⟩
  · intro run f
    exact (Problem.finished_of_solve regular run).holds_iff regular.toLawful

theorem derivable_of_reached_identityCall : identityCall.Built ∧
    ∃ h, ∃ s : SolverState (Config.default.problem .bySite h), s.Reached ∧
      s.Holds (.reachable ⟨[], ⟨0⟩⟩) ∧ ∀ f, s.Holds f ↔ Derivable h Config.default.policy f := by
  obtain ⟨h, hierarchy, same, result⟩ := derivable_of_reached Config.default built_identityCall
  obtain ⟨s, run⟩ := exists_solve_identityCall hierarchy
  have reached : s.Reached := .solve .initial (Or.inl ⟨(), run⟩)
  obtain ⟨-, -, -, -, least⟩ := result s reached
  refine ⟨built_identityCall, h, s, reached, (least run _).2 ?_, least run⟩
  refine .step (.entry ?_) (by simp)
  rw [same]
  decide +kernel

/-! ## Outcomes -/

/-- A run from the beginning reports that there is no entry exactly if there is none, reports a call
that cannot be made exactly if there is one within the least solution, and succeeds otherwise. -/
theorem outcome_of_solve (c : Config) (built : p.Built) :
    ∃ h, Hierarchy.ofProgram p = .ok h ∧ h.program = p ∧
      ((∃ s, Solve.solve.run (.initial (c.problem .bySite h)) =
        .error (.failed .noEntryMethod) s) ↔ p.entries = []) ∧
      ((∃ e s, e.IsBadCall ∧ Solve.solve.run (.initial (c.problem .bySite h)) =
        .error (.failed e) s) ↔ p.entries ≠ [] ∧ BadCall h c.policy) ∧
      ((∃ s, Solve.solve.run (.initial (c.problem .bySite h)) = .ok () s) ↔
        p.entries ≠ [] ∧ ¬BadCall h c.policy) ∧
      ∀ e s, Solve.solve.run (.initial (c.problem .bySite h)) = .error e s →
        e = .failed .noEntryMethod ∨ ∃ e', e'.IsBadCall ∧ e = .failed e' := by
  obtain ⟨h, hierarchy, same⟩ := Hierarchy.exists_ofProgram built.wellFormed.toChecked
  have regular := c.problem_regular built hierarchy
  have cases := Problem.solve_cases regular
  have program : (c.problem .bySite h).program.entries = p.entries := congrArg Program.entries same
  have noEntry : ∀ s, Solve.solve.run (.initial (c.problem .bySite h)) =
      .error (.failed .noEntryMethod) s → p.entries = [] := by
    intro s run
    rw [← program]
    exact Problem.entries_of_solve_noEntryMethod regular run
  have badCall : ∀ e s, e.IsBadCall → Solve.solve.run (.initial (c.problem .bySite h)) =
      .error (.failed e) s → p.entries ≠ [] ∧ BadCall h c.policy := by
    intro e s reported run
    have bad := Problem.badCall_of_solve regular reported run
    rw [← program]
    exact ⟨entries_ne_nil_of_badCall bad, bad⟩
  have success : ∀ s, Solve.solve.run (.initial (c.problem .bySite h)) = .ok () s →
      p.entries ≠ [] ∧ ¬BadCall h c.policy := by
    intro s run
    have finished := Problem.finished_of_solve regular run
    rw [← program]
    exact ⟨finished.entries, finished.not_badCall regular.toLawful⟩
  refine ⟨h, hierarchy, same, ⟨fun ⟨s, run⟩ => noEntry s run, fun none => ?_⟩,
    ⟨fun ⟨e, s, reported, run⟩ => badCall e s reported run, fun ⟨listed, bad⟩ => ?_⟩,
    ⟨fun ⟨s, run⟩ => success s run, fun ⟨listed, fit⟩ => ?_⟩, fun e s run => ?_⟩
  · rcases cases with ⟨s, run⟩ | found | ⟨e, s, reported, run⟩
    · exact absurd none (success s run).1
    · exact found
    · exact absurd none (badCall e s reported run).1
  · rcases cases with ⟨s, run⟩ | ⟨s, run⟩ | found
    · exact absurd bad (success s run).2
    · exact absurd (noEntry s run) listed
    · exact found
  · rcases cases with found | ⟨s, run⟩ | ⟨e, s, reported, run⟩
    · exact found
    · exact absurd (noEntry s run) listed
    · exact absurd (badCall e s reported run).2 fit
  · have other : Solve.solve (.initial (c.problem .bySite h)) = .error e s := run
    rcases cases with ⟨s', run'⟩ | ⟨s', run'⟩ | ⟨e', s', reported, run'⟩
    · rw [other] at run'
      cases run'
    · rw [other] at run'
      cases run'
      exact Or.inl rfl
    · rw [other] at run'
      cases run'
      exact Or.inr ⟨e', reported, rfl⟩

theorem outcome_of_solve_identityCall : identityCall.Built ∧
    ∃ h, Hierarchy.ofProgram identityCall = .ok h ∧
      (∃ s, Solve.solve.run (.initial (Config.default.problem .bySite h)) = .ok () s) ∧
      ¬BadCall h Config.default.policy := by
  obtain ⟨h, hierarchy, -, -, -, success, -⟩ := outcome_of_solve Config.default built_identityCall
  have run := exists_solve_identityCall hierarchy
  exact ⟨built_identityCall, h, hierarchy, run, (success.1 run).2⟩

end Config

end PointsTo
