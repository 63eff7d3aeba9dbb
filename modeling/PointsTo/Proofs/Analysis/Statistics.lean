import PointsTo.Proofs.Analysis.Interleaving
import PointsTo.Proofs.Solver.Arrivals

/-!
# What the counters of an analysis say

The counter of propagated objects is the size of all points-to sets together at any time. After a run
from the beginning that has succeeded, the counter of calls without a target is the number of static
calls in reachable methods that resolve to nothing, and of calls on objects of variables that reach
nothing.
-/

namespace PointsTo

open Inclusion

variable {P : Problem} {q : Policy}

namespace SolverState

section Calls

variable (s : SolverState P)

/-- The statement at a position of a reachable method is a static call that resolves to nothing. -/
def LostCall (m : CsMethodId) (n : Nat) : Prop :=
  m ∈ s.callGraph.reachable.toList ∧ ∃ x i call, s.elements.csMethodAt m = .ok x ∧
    P.program.stmt? x.method n = some (.invoke i) ∧ P.program.invokeAt i = .ok call ∧
    call.kind = .static ∧ P.hierarchy.resolveStatic call.target = .ok none

/-- A location is a variable, and the call at a position among the calls on it reaches nothing on one
of its objects. -/
def MissedCall (p : PointerId) (o : CsObjId) (n : Nat) : Prop :=
  s.Contains p o ∧ ∃ c v var i call x obj, s.elements.pointerKey p = .ok (.var c v) ∧
    P.program.varAt v = .ok var ∧ var.uses.invokes[n]? = some i ∧
    P.program.invokeAt i = .ok call ∧ call.kind ≠ .static ∧ s.elements.csObjAt o = .ok x ∧
    P.heapModel.objectAt s.heap x.obj = .ok obj ∧ Solve.target? (P := P) call obj = .ok none

/-- The counter of calls without a target is the number of lost and missed calls. -/
def CountsCalls : Prop :=
  ∃ (lost : Finset (CsMethodId × Nat)) (missed : Finset ((PointerId × CsObjId) × Nat)),
    (∀ m n, (m, n) ∈ lost ↔ s.LostCall m n) ∧
    (∀ p o n, ((p, o), n) ∈ missed ↔ s.MissedCall p o n) ∧
    s.stats.unresolvedCalls = lost.card + missed.card

/-- The counters have the sizes of the tables and graphs. -/
structure Sized : Prop where
  reachableMethods : s.stats.reachableMethods = s.callGraph.reachable.size
  callEdges : s.stats.callEdges = s.callGraph.edges.size
  flowEdges : s.stats.flowEdges = s.flow.size
  pointers : s.stats.pointers = s.elements.pointers.size
  csObjects : s.stats.csObjects = s.elements.objects.size
  contexts : s.stats.contexts = s.contexts.size

end Calls

variable {s : SolverState P}

theorem getElem?_bodyOf {m : MethodId} {n : Nat} {stmt : Stmt} :
    (P.bodyOf m)[n]? = some stmt ↔ P.program.stmt? m n = some stmt := by
  rw [Problem.bodyOf, Program.stmt?]
  cases declared : P.program.methods[m.index]? with
  | none => simp [Program.methodAt, fetch, declared]
  | some method => simp [Program.methodAt, fetch, declared]

theorem getElem?_bodyAt {m : CsMethodId} {n : Nat} {stmt : Stmt} :
    (s.bodyAt m)[n]? = some stmt ↔
      ∃ x, s.elements.csMethodAt m = .ok x ∧ P.program.stmt? x.method n = some stmt := by
  rw [bodyAt]
  constructor
  · intro found
    split at found
    · rename_i x known
      exact ⟨x, fetch_eq_ok_iff.2 known, getElem?_bodyOf.1 found⟩
    · simp at found
  · rintro ⟨x, known, stands⟩
    rw [show s.elements.methods.get? m.index = some x from fetch_eq_ok_iff.1 known]
    exact getElem?_bodyOf.2 stands

theorem getElem?_callsAt {p : PointerId} {n : Nat} {i : InvokeId} :
    (s.callsAt p)[n]? = some i ↔ ∃ c v var, s.elements.pointerKey p = .ok (.var c v) ∧
      P.program.varAt v = .ok var ∧ var.uses.invokes[n]? = some i := by
  rw [callsAt]
  constructor
  · intro found
    split at found
    · rename_i c v known
      rw [Problem.callsOn] at found
      split at found
      · rename_i var declared
        exact ⟨c, v, var, fetch_eq_ok_iff.2 known, declared, found⟩
      · simp at found
    · simp at found
  · rintro ⟨c, v, var, known, declared, listed⟩
    have key : s.elements.pointers.get? p.index = some (.var c v) := fetch_eq_ok_iff.1 known
    rw [key]
    show (P.callsOn v)[n]? = some i
    rw [Problem.callsOn, declared]
    exact listed

theorem misses_iff (lawful : P.Lawful q) {o : CsObjId} {i : InvokeId} :
    s.misses o i = true ↔ ∃ x obj, s.elements.csObjAt o = .ok x ∧
      P.heapModel.objectAt s.heap x.obj = .ok obj ∧ P.isMissed obj.ty i = true := by
  simp only [misses, Option.any_eq_true, typeOf?_eq_some_iff, lawful.heap.objectAt,
    ElementStore.csObjAt, fetch_eq_ok_iff]
  constructor
  · rintro ⟨ty, ⟨x, obj, present, found, rfl⟩, missed⟩
    exact ⟨x, obj, present, found, missed⟩
  · rintro ⟨x, obj, present, found, missed⟩
    exact ⟨obj.ty, ⟨x, obj, present, found, rfl⟩, missed⟩

theorem lostCall_iff {m : CsMethodId} {n : Nat} : s.LostCall m n ↔
    m ∈ s.callGraph.reachable.toList ∧ n ∈ positions P.isLost (s.bodyAt m) := by
  rw [mem_positions]
  refine and_congr_right fun _ => ⟨?_, ?_⟩
  · rintro ⟨x, i, call, known, stands, described, kind, none⟩
    refine ⟨.invoke i, getElem?_bodyAt.2 ⟨x, known, stands⟩, ?_⟩
    rw [Problem.isLost_invoke described, none]
    simp [kind, foundNone]
  · rintro ⟨stmt, found, lost⟩
    obtain ⟨x, known, stands⟩ := getElem?_bodyAt.1 found
    obtain ⟨i, call, rfl, described, kind, none⟩ := Problem.isLost_iff.1 lost
    exact ⟨x, i, call, known, stands, described, kind, none⟩

theorem missedCall_iff (lawful : P.Lawful q) {p : PointerId} {o : CsObjId} {n : Nat} :
    s.MissedCall p o n ↔ s.Contains p o ∧ n ∈ positions (s.misses o) (s.callsAt p) := by
  rw [mem_positions]
  refine and_congr_right fun _ => ⟨?_, ?_⟩
  · rintro ⟨c, v, var, i, call, x, obj, known, declared, listed, described, kind, present, found,
      none⟩
    refine ⟨i, getElem?_callsAt.2 ⟨c, v, var, known, declared, listed⟩, ?_⟩
    exact (misses_iff lawful).2 ⟨x, obj, present, found,
      Problem.isMissed_iff.2 ⟨call, described, kind, none⟩⟩
  · rintro ⟨i, listed, missed⟩
    obtain ⟨c, v, var, known, declared, listed⟩ := getElem?_callsAt.1 listed
    obtain ⟨x, obj, present, found, missed⟩ := (misses_iff lawful).1 missed
    obtain ⟨call, described, kind, none⟩ := Problem.isMissed_iff.1 missed
    exact ⟨c, v, var, i, call, x, obj, known, declared, listed, described, kind, present, found,
      none⟩

theorem Accounted.countsCalls (lawful : P.Lawful q) {arrivals : Finset (PointerId × CsObjId)}
    (accounted : s.Accounted arrivals 0) : s.CountsCalls := by
  obtain ⟨lost, memLost, cardLost⟩ := exists_pairs s.callGraph.reachable.toList.toFinset fun m =>
    positions P.isLost (s.bodyAt m)
  obtain ⟨missed, memMissed, cardMissed⟩ := exists_pairs arrivals fun a =>
    positions (s.misses a.2) (s.callsAt a.1)
  refine ⟨lost, missed, fun m n => ?_, fun p o n => ?_, ?_⟩
  · rw [memLost, List.mem_toFinset, lostCall_iff]
  · rw [memMissed, accounted.contains, missedCall_iff lawful]
  · simp only [card_positions] at cardLost cardMissed
    rw [List.sum_toFinset _ s.callGraph.reachable.nodup_toList] at cardLost
    rw [cardLost, cardMissed]
    exact accounted.unresolved

/-- The sizes are recorded at the end of a run. -/
theorem sized_of_solve {s' : SolverState P} (run : Solve.solve s = .ok () s') : s'.Sized := by
  obtain ⟨-, s₁, -, rest⟩ := Solve.bind_run_eq_ok run
  obtain ⟨-, s₂, -, recorded⟩ := Solve.bind_run_eq_ok rest
  cases recorded
  exact ⟨rfl, rfl, rfl, rfl, rfl, rfl⟩

end SolverState

/-! ## Analyses of built programs -/

/-- A main method allocates two objects for a variable, calls a method on them that no class declares,
and calls a static method that no class declares. -/
def lostCalls : Program :=
  (Program.ofDeclarations? [
    .addClass "A" none false,
    .addMethod ⟨0⟩ ⟨"void main()"⟩ true [],
    .addEntry ⟨0⟩,
    .var ⟨0⟩ "x",
    .addStmt ⟨0⟩ (.new ⟨0⟩ (.ref ⟨0⟩)),
    .addStmt ⟨0⟩ (.new ⟨0⟩ (.ref ⟨0⟩)),
    .addInvoke ⟨0⟩ .virtual ⟨⟨0⟩, ⟨"void run()"⟩⟩ (some ⟨0⟩) [] none,
    .addInvoke ⟨0⟩ .static ⟨⟨0⟩, ⟨"void halt()"⟩⟩ none [] none]).getD .empty

theorem built_lostCalls : lostCalls.Built :=
  Program.built_of_ofDeclarations? (by decide +kernel)

namespace Config

variable {p : Program}

/-- After any operations that came back, the counter of propagated objects is the size of all
points-to sets together. After a run from the beginning that has succeeded, the counter of calls
without a target is the number of such calls, and the other counters have the sizes of the tables and
graphs. -/
theorem counts_of_runs (c : Config) (built : p.Built) :
    ∃ h, Hierarchy.ofProgram p = .ok h ∧ h.program = p ∧
      (∀ (l : List Operation) (s : SolverState (c.problem .bySite h)),
        (SolverState.initial _).afterAll l = some s → s.stats.propagations = s.elements.volume) ∧
      ∀ s, Solve.solve.run (.initial (c.problem .bySite h)) = .ok () s →
        s.CountsCalls ∧ s.Sized := by
  obtain ⟨h, hierarchy, same⟩ := Hierarchy.exists_ofProgram built.wellFormed.toChecked
  have lawful := (c.problem_regular built hierarchy).toLawful
  refine ⟨h, hierarchy, same, fun l s came => ?_, fun s run => ⟨?_, SolverState.sized_of_solve run⟩⟩
  · have changes := SolverState.changes_of_afterAll came
    exact SolverState.counted_of_changes changes SolverState.counted_initial
  · obtain ⟨arrivals, accounted⟩ := Solve.solve_accounted lawful lawful.program.fits () s run
    exact accounted.countsCalls lawful

/-- The analysis of the example propagates two objects and counts three calls. -/
theorem counts_of_runs_lostCalls : lostCalls.Built ∧
    ∃ h, ∃ s : SolverState (Config.default.problem .bySite h),
      Hierarchy.ofProgram lostCalls = .ok h ∧ Solve.solve.run (.initial _) = .ok () s ∧
      s.elements.volume = 2 ∧ s.stats.unresolvedCalls = 3 ∧ s.CountsCalls ∧ s.Sized := by
  obtain ⟨h, hierarchy, -, volume, result⟩ := counts_of_runs Config.default built_lostCalls
  have runs : lostCalls.passes (fun h =>
      Solve.passes Solve.solve (.initial (Config.default.problem .bySite h)) fun s =>
        s.stats.propagations == 2 && s.stats.unresolvedCalls == 3) = true := by
    decide +kernel
  obtain ⟨⟨⟩, s, run, counts⟩ := Solve.exists_of_passes (Program.test_of_passes hierarchy runs)
  simp only [Bool.and_eq_true, beq_iff_eq] at counts
  have after : Operation.solve.after (.initial (Config.default.problem .bySite h)) = some s := by
    rw [Operation.after, Operation.run, show Solve.solve _ = _ from run]
  have came : SolverState.afterAll (.initial _) [.solve] = some s := by
    rw [SolverState.afterAll, List.foldlM_cons, after]
    rfl
  obtain ⟨counted, sized⟩ := result s run
  exact ⟨built_lostCalls, h, s, hierarchy, run, (volume _ s came).symm.trans counts.1, counts.2,
    counted, sized⟩

end Config

end PointsTo
