import PointsTo.Proofs.Analysis.Solution
import PointsTo.Proofs.Program.Safety
import PointsTo.Proofs.Result.Summary

/-!
# Programs that pass the checks are safe to analyse

Whatever a front end declares, finishing the draft makes no look-up out of range. If the draft passes
its checks, neither does anything that follows: the class hierarchy exists, each operation of an
analysis succeeds or fails for a reason that the program gives, and a result has a summary. The
reasons are that there is no entry, that a call passes the wrong number of arguments, and that a call
on an object is dispatched to a static method.
-/

namespace PointsTo

open Inclusion

/-- A call on an object that the analysis meets is dispatched to a static method of a name. -/
inductive Inclusion.MeetsStatic (h : Hierarchy) (q : Policy) (name : String) : Prop where
  | onObject {t : Trail} {m : MethodId} {i : InvokeId} {call : Invoke} {recv : VarId} {o : HeapObj}
      {a : Allocation} {callee : MethodId} {method : Method}
      (reached : Derivable h q (.reachable ⟨t, m⟩)) (site : CallIn h m i call)
      (receiver : call.receiver = some recv) (held : Derivable h q (.pointsTo (.var t recv) o))
      (target : Dispatches h call o a callee)
      (declared : h.program.methods[callee.index]? = some method)
      (static : method.isStatic = true) (named : h.program.methodName callee = .ok name)

/-- Only a static method has no receiver variable. -/
theorem Inclusion.LacksReceiver.meetsStatic {h : Hierarchy} (wf : h.program.WellFormed) {q : Policy}
    {name : String} (lacks : LacksReceiver h q name) : MeetsStatic h q name := by
  obtain ⟨reached, site, receiver, held, target, declared, none, named⟩ := lacks
  exact .onObject reached site receiver held target declared
    ((wf.methods _ _ declared).isStatic none) named

/-- Why an analysis of a program may stop early. -/
inductive Problem.Refuses (P : Problem) (q : Policy) : Stop → Prop where
  | noEntryMethod (none : P.program.entries = []) : Refuses P q (.failed .noEntryMethod)
  | missingReceiver {method : String} (meets : MeetsStatic P.hierarchy q method) :
      Refuses P q (.failed (.missingReceiver method))
  | arityMismatch {callSite callee : String} {expected found : Nat} (bad : BadCall P.hierarchy q) :
      Refuses P q (.failed (.arityMismatch callSite callee expected found))

section Regular

variable {P : Problem} {q : Policy} (regular : P.Regular q)
include regular

/-- An operation that is called fails for a reason that the program gives. -/
theorem SolverState.Reached.refuses {s : SolverState P} (reached : s.Reached) {e : Stop}
    (stops : s.Stops e) : P.Refuses q e := by
  obtain ⟨rounds, excused⟩ := reached.excused regular stops
  cases e with
  | outOfRange r => exact False.elim excused
  | outOfRounds => exact absurd rfl rounds
  | failed e =>
    cases e with
    | noEntryMethod => exact .noEntryMethod excused
    | missingReceiver method => exact .missingReceiver (excused.meetsStatic regular.program)
    | arityMismatch callSite callee expected found => exact .arityMismatch excused

/-- An analysis gives a result with a summary, or fails for a reason that the program gives. -/
theorem Problem.analyze_cases (collectStats : Bool) :
    (∃ r summary, P.analyze collectStats = .ok r ∧ r.summary = .ok summary) ∨
      ∃ e, P.analyze collectStats = .error e ∧ P.Refuses q e := by
  cases run : Solve.solve (.initial P) with
  | ok a s =>
    obtain ⟨r, done, complete⟩ := exists_analyze regular collectStats run
    obtain ⟨summary, told⟩ := complete.exists_summary regular.toLawful
    exact Or.inl ⟨r, summary, done, told⟩
  | error e s =>
    have whole : Solve.solve.run (.initial P) = .error e s := run
    refine Or.inr ⟨e, by rw [analyze, whole], ?_⟩
    exact SolverState.Reached.initial.refuses regular ⟨s, Or.inr (Or.inr run)⟩

end Regular

/-! ## Whatever is declared -/

/-- A class inherits an instance method and declares a static one of the same subsignature, and a main
method calls it on an object. -/
def staticOverride : List Declaration :=
  [.addClass "A" none false,
    .addMethod ⟨0⟩ ⟨"void main()"⟩ true [],
    .addMethod ⟨0⟩ ⟨"void run()"⟩ false [],
    .addClass "B" (some ⟨0⟩) false,
    .addMethod ⟨1⟩ ⟨"void run()"⟩ true [],
    .addEntry ⟨0⟩,
    .var ⟨0⟩ "b",
    .addStmt ⟨0⟩ (.new ⟨1⟩ (.ref ⟨1⟩)),
    .addInvoke ⟨0⟩ .virtual ⟨⟨0⟩, ⟨"void run()"⟩⟩ (some ⟨1⟩) [] none]

/-- Its analysis fails. -/
theorem analyze_staticOverride {h : Hierarchy}
    (hierarchy : Hierarchy.ofProgram ((Program.ofDeclarations? staticOverride).getD .empty) = .ok h) :
    (Config.default.problem .bySite h).analyze Config.default.collectStats =
      .error (.failed (.missingReceiver "B.run")) := by
  have fails : ((Program.ofDeclarations? staticOverride).getD .empty).passes (fun h =>
      match (Config.default.problem .bySite h).analyze Config.default.collectStats with
      | .error e => decide (e = .failed (.missingReceiver "B.run"))
      | .ok _ => false) = true := by
    decide +kernel
  have fails := Program.test_of_passes hierarchy fails
  split at fails
  · rename_i e refused
    rw [refused, of_decide_eq_true fails]
  · cases fails

namespace Config

/-- However a program is declared, finishing and analysing it makes no look-up out of range. If it
passes the checks, each call of an operation of its analysis succeeds or fails for a reason that the
program gives, and so does the analysis as a whole, whose result has a summary. -/
theorem refuses_or_summarizes (c : Config) {l : List Declaration} {d : Draft}
    (declared : (Draft.empty.declareAll l).2 = .ok d) :
    d.Safe ∧ ∀ p, d.build = .ok p → ∃ h, Hierarchy.ofProgram p = .ok h ∧ h.program = p ∧
      (∀ s : SolverState (c.problem .bySite h), s.Reached → ∀ e, s.Stops e →
        (c.problem .bySite h).Refuses c.policy e) ∧
      ((∃ r summary, (c.problem .bySite h).analyze c.collectStats = .ok r ∧
          r.summary = .ok summary) ∨
        ∃ e, (c.problem .bySite h).analyze c.collectStats = .error e ∧
          (c.problem .bySite h).Refuses c.policy e) := by
  refine ⟨(Draft.sound_empty.declareAll declared).safe, fun p finished => ?_⟩
  have built : p.Built := ⟨l, d, declared, finished⟩
  obtain ⟨h, hierarchy, same⟩ := Hierarchy.exists_ofProgram built.wellFormed.toChecked
  have regular := c.problem_regular built hierarchy
  exact ⟨h, hierarchy, same, fun s reached e stops => reached.refuses regular stops,
    Problem.analyze_cases regular c.collectStats⟩

theorem refuses_or_summarizes_staticOverride : ∃ d p h,
    (Draft.empty.declareAll staticOverride).2 = .ok d ∧ d.Safe ∧ d.build = .ok p ∧
      Hierarchy.ofProgram p = .ok h ∧
      (Config.default.problem .bySite h).analyze Config.default.collectStats =
        .error (.failed (.missingReceiver "B.run")) ∧
      MeetsStatic h Config.default.policy "B.run" := by
  obtain ⟨d, declared, finished⟩ :=
    Program.exists_draft_of_ofDeclarations? (l := staticOverride) (by decide +kernel)
  obtain ⟨safe, analysed⟩ := refuses_or_summarizes Config.default declared
  obtain ⟨h, hierarchy, -, -, outcome⟩ := analysed _ finished
  have refused := analyze_staticOverride hierarchy
  refine ⟨d, _, h, declared, safe, finished, hierarchy, refused, ?_⟩
  rcases outcome with ⟨r, summary, done, -⟩ | ⟨e, done, refusal⟩
  · rw [refused] at done
    cases done
  · rw [refused] at done
    obtain rfl := Except.error.inj done
    cases refusal with
    | missingReceiver meets => exact meets

end Config

end PointsTo
