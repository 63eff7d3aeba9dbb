import PointsTo.Proofs.Analysis.Solution
import PointsTo.Proofs.Solver.Containers
import PointsTo.Proofs.Solver.Linking

/-!
# Integrity of the call graph during an analysis

After any starts and steps that have succeeded, the call graph shows by itself how each reachable
method is reached from an entry, and the tables of elements have nothing that belongs to no reachable
method.
-/

namespace PointsTo

open Inclusion

variable {P : Problem}

/-- The states that starts and steps lead to when all of them succeed. -/
inductive SolverState.Advanced : SolverState P → Prop where
  | initial : Advanced (.initial P)
  | start {s s' : SolverState P} (before : Advanced s) (run : Solve.start s = .ok () s') : Advanced s'
  | step {s s' : SolverState P} (before : Advanced s) {again : Bool}
      (run : Solve.step s = .ok again s') : Advanced s'

namespace SolverState

variable {s : SolverState P}

/-- The call graph and the tables of elements fit together. -/
structure Intact (s : SolverState P) : Prop where
  /-- The entries are those of the program, in the empty context. -/
  entries : ∀ m ∈ s.callGraph.entries.toList,
    ∃ e ∈ P.program.entries, s.elements.csMethodAt m = .ok ⟨.empty, e⟩
  entered : s.initialized = true → ∀ e ∈ P.program.entries,
    ∃ m ∈ s.callGraph.entries.toList, s.elements.csMethodAt m = .ok ⟨.empty, e⟩
  /-- Reachable methods are listed once. -/
  distinct : s.callGraph.reachable.toList.Nodup
  /-- The reachable methods are those that edges lead to from an entry. -/
  reachable_iff : ∀ m, m ∈ s.callGraph.reachable.toList ↔
    ∃ entry ∈ s.callGraph.entries.toList, Relation.ReflTransGen s.callGraph.HasCall entry m
  /-- The site of an edge stands in a reachable method, which lists it, and the callee of the edge is
  reachable. -/
  edges : ∀ e ∈ s.callGraph.edges.toList, ∃ c i call m,
    s.elements.csCallSiteAt e.site = .ok ⟨c, i⟩ ∧ P.program.invokeAt i = .ok call ∧
    s.callGraph.containerOf e.site = some m ∧ s.elements.csMethodAt m = .ok ⟨c, call.container⟩ ∧
    m ∈ s.callGraph.reachable.toList ∧ e.site ∈ s.callGraph.sitesIn m ∧
    e.callee ∈ s.callGraph.reachable.toList
  /-- All known methods are reachable. -/
  methods : ∀ m x, s.elements.csMethodAt m = .ok x → m ∈ s.callGraph.reachable.toList
  /-- The method of a variable is reachable under the context of the variable. -/
  vars : ∀ p c v, s.elements.pointerKey p = .ok (.var c v) →
    ∃ var, P.program.varAt v = .ok var ∧
      ∃ m ∈ s.callGraph.reachable.toList, s.elements.csMethodAt m = .ok ⟨c, var.method⟩
  /-- Objects in points-to sets, objects on the worklist, and objects with fields or elements are
  known. -/
  contained : ∀ p o, s.Contains p o → ∃ x, s.elements.csObjAt o = .ok x
  pending : ∀ e ∈ s.worklist.toList, ∀ o ∈ e.objects, ∃ x, s.elements.csObjAt o = .ok x
  fields : ∀ p o f, s.elements.pointerKey p = .ok (.instanceField o f) →
    ∃ x, s.elements.csObjAt o = .ok x
  arrays : ∀ p o, s.elements.pointerKey p = .ok (.arrayIndex o) → ∃ x, s.elements.csObjAt o = .ok x

theorem Advanced.reached (advanced : s.Advanced) : s.Reached := by
  induction advanced with
  | initial => exact .initial
  | start _ run ih => exact .start ih (Or.inl ⟨(), run⟩)
  | step _ run ih => exact .step ih (Or.inl ⟨_, run⟩)

theorem whole_initial : (initial P).Whole [] where
  housed _ mem := absurd mem List.not_mem_nil
  linked _ listed := absurd listed List.not_mem_nil
  visited _ _ known := absurd (Table.mem_toList_of_get? known) List.not_mem_nil
  connected _ known := absurd known List.not_mem_nil

/-- No method waits between two operations, nothing is pending before the start, and all entries have
been entered after it. -/
theorem Advanced.whole (wf : P.program.WellFormed) (advanced : s.Advanced) :
    s.Whole [] ∧ (s.initialized = false → s.worklist.toList = []) ∧
      (s.initialized = true → ∀ m ∈ P.program.entries, s.Enters ⟨.empty, m⟩) := by
  induction advanced with
  | initial => exact ⟨whole_initial, fun _ => rfl, fun started => by cases started⟩
  | @start s s' _ run ih =>
    obtain ⟨whole, -, entered⟩ := ih
    obtain ⟨extends', entered'⟩ := Solve.start_whole wf whole () s' run
    have started := Solve.start_initialized wf.fits () s' run
    refine ⟨extends'.whole, by simp [started], fun _ m listed => ?_⟩
    cases before : s.initialized with
    | false => exact entered' before m listed
    | true => exact extends'.kept.enters (entered before m listed)
  | @step s s' _ again run ih =>
    obtain ⟨whole, idle, entered⟩ := ih
    have extends' := Solve.step_whole wf whole again s' run
    cases before : s.initialized with
    | false =>
      rw [Solve.step_of_empty (idle before)] at run
      cases run
      exact ⟨whole, idle, entered⟩
    | true =>
      have started := Solve.step_initialized wf.fits before again s' run
      exact ⟨extends'.whole, by simp [started],
        fun _ m listed => extends'.kept.enters (entered before m listed)⟩

theorem Reached.located {q : Policy} (lawful : P.Lawful q) (reached : s.Reached) :
    s.callGraph.Located :=
  located_of_changes (reached.grounded_moved lawful).2.changes CallGraph.located_empty

theorem Advanced.intact {q : Policy} (lawful : P.Lawful q) (advanced : s.Advanced) : s.Intact := by
  have grounded := advanced.reached.grounded lawful
  have located := advanced.reached.located lawful
  obtain ⟨whole, -, entered⟩ := advanced.whole lawful.program
  have reachable : ∀ (m : CsMethodId) x, s.elements.methods.get? m.index = some x →
      m ∈ s.callGraph.reachable.toList :=
    fun m x known => (whole.visited m x known).resolve_right List.not_mem_nil
  have object : ∀ {x o}, s.heapObj? x = some o → ∃ cs, s.elements.csObjAt x = .ok cs := by
    intro x o read
    obtain ⟨cs, obj, known, -⟩ := heapObj?_eq_some_iff.1 read
    exact ⟨cs, fetch_eq_ok_iff.2 known⟩
  have sent : ∀ p o, s.Sent p o → ∃ cs, s.elements.csObjAt o = .ok cs := by
    intro p o sent
    obtain ⟨-, b, -, read, -⟩ := grounded.sent p o sent
    exact object read
  constructor
  case entries =>
    intro m listed
    obtain ⟨e, mem, read⟩ := grounded.entries m listed
    obtain ⟨c, known, trail⟩ := activation?_eq_some_iff.1 read
    have empty : s.trail? .empty = some [] :=
      trail?_eq_some_iff.2 ⟨[], s.contexts.first, rfl⟩
    obtain rfl := trail?_injective (grounded.distinctSites lawful) trail empty
    exact ⟨e, mem, fetch_eq_ok_iff.2 known⟩
  case entered =>
    intro started e listed
    obtain ⟨m, mem, known⟩ := entered started e listed
    exact ⟨m, mem, fetch_eq_ok_iff.2 known⟩
  case distinct => exact s.callGraph.reachable.nodup_toList
  case reachable_iff => exact fun m => whole.reachable_iff lawful grounded located
  case edges =>
    intro e listed
    obtain ⟨x, y, links⟩ := whole.linked e listed
    obtain ⟨k, known⟩ := Table.mem_toList_iff_get?.1 links.caller
    obtain ⟨i, call, point, site⟩ := links.site
    obtain ⟨listed', mem, container, callee⟩ :=
      whole.caller lawful grounded located links (m := ⟨k⟩) known
    refine ⟨x.context, i, call, ⟨k⟩, fetch_eq_ok_iff.2 point, fetch_eq_ok_iff.2 site.call, container,
      ?_, listed', mem, callee⟩
    rw [(site.admitted lawful.program).1]
    exact fetch_eq_ok_iff.2 known
  case methods => exact fun m x known => reachable m x (fetch_eq_ok_iff.1 known)
  case vars =>
    intro p c v known
    have listed := Table.mem_toList_of_get? (fetch_eq_ok_iff.1 known)
    obtain ⟨m, ⟨var, declared, rfl⟩, present⟩ := whole.housed _ listed
    obtain ⟨k, found⟩ := Table.mem_toList_iff_get?.1 present
    exact ⟨var, fetch_eq_ok_iff.2 declared, ⟨k⟩, reachable ⟨k⟩ _ found, fetch_eq_ok_iff.2 found⟩
  case contained => exact fun p o here => sent p o (Or.inl here)
  case pending => exact fun e listed o mem => sent e.target o (Or.inr ⟨e, listed, rfl, mem⟩)
  case fields =>
    intro p o f known
    obtain ⟨l, -, read, -⟩ := grounded.exists_locationAt? (fetch_eq_ok_iff.1 known)
    obtain ⟨b, base, -⟩ := Option.map_eq_some_iff.1 read
    exact object base
  case arrays =>
    intro p o known
    obtain ⟨l, -, read, -⟩ := grounded.exists_locationAt? (fetch_eq_ok_iff.1 known)
    obtain ⟨b, base, -⟩ := Option.map_eq_some_iff.1 read
    exact object base

end SolverState

namespace Config

variable {p : Program}

/-- Whatever the program and the configuration, the call graph and the tables of elements fit together
after starts and steps that have succeeded. -/
theorem intact_of_advanced (c : Config) (built : p.Built) :
    ∃ h, Hierarchy.ofProgram p = .ok h ∧ h.program = p ∧
      ∀ s : SolverState (c.problem .bySite h), s.Advanced → s.Intact := by
  obtain ⟨h, hierarchy, same⟩ := Hierarchy.exists_ofProgram built.wellFormed.toChecked
  exact ⟨h, hierarchy, same, fun s advanced =>
    advanced.intact (c.problem_regular built hierarchy).toLawful⟩

/-- After a start and one step, the example has a call. -/
theorem intact_of_advanced_identityCall : identityCall.Built ∧
    ∃ h, ∃ s : SolverState (Config.default.problem .bySite h),
      Hierarchy.ofProgram identityCall = .ok h ∧ s.Advanced ∧ s.Intact ∧
      s.callGraph.edges.size = 1 := by
  obtain ⟨h, hierarchy, -, result⟩ := intact_of_advanced Config.default built_identityCall
  have runs : identityCall.passes (fun h =>
      Solve.passes Solve.start (.initial (Config.default.problem .bySite h)) fun s =>
        Solve.passes Solve.step s fun s => s.callGraph.edges.size == 1) = true := by
    decide +kernel
  obtain ⟨⟨⟩, s₁, first, runs⟩ := Solve.exists_of_passes (Program.test_of_passes hierarchy runs)
  obtain ⟨again, s, second, edges⟩ := Solve.exists_of_passes runs
  have advanced : s.Advanced := .step (.start .initial first) second
  exact ⟨built_identityCall, h, s, hierarchy, advanced, result s advanced, beq_iff_eq.1 edges⟩

end Config

end PointsTo
