import PointsTo.Proofs.Analysis.Contexts
import PointsTo.Proofs.Analysis.Integrity
import PointsTo.Proofs.CallGraph.Projection
import PointsTo.Proofs.Hierarchy.CallGraph
import PointsTo.Proofs.Program.Entries
import PointsTo.Proofs.Result.Image
import PointsTo.Proofs.Solver.Accrual
import PointsTo.Proofs.Solver.Entering

/-!
# Call graphs without contexts

The call graph of a result merges the call graph of its state over all contexts. The merge keeps the
call sites of one of the contexts only, and records one method for each call site. Nothing is lost by
that: under every context a method has the calls of its body, and a call stands in one method.
-/

namespace PointsTo

open Inclusion Relation

variable {P : Problem} {q : Policy}

/-- A call of a method has the method as its container. -/
theorem Program.WellFormed.exists_invoke_of_mem_invokesIn {p : Program} (wf : p.WellFormed)
    {m : MethodId} {l : List InvokeId} {i : InvokeId} (found : p.invokesIn m = .ok l) (mem : i ∈ l) :
    ∃ call, p.invokes[i.index]? = some call ∧ call.container = m := by
  obtain ⟨position, stands⟩ := (Program.mem_invokesIn found).1 mem
  obtain ⟨call, described, container, -⟩ := (wf.stmts m position _ stands).called i rfl
  exact ⟨call, described, container⟩

/-! ## Ends of runs -/

namespace SolverState

variable {s s' : SolverState P}

/-- Recording sizes leaves alone what is recorded. -/
theorem Intact.recorded (intact : s.Intact) : s.recorded.Intact :=
  ⟨intact.entries, intact.entered, intact.distinct, intact.reachable_iff, intact.edges, intact.methods,
    intact.vars, intact.contained, intact.pending, intact.fields, intact.arrays⟩

theorem Advanced.stepAll {rounds : Nat} (before : s.Advanced)
    (run : Solve.stepAll rounds s = .ok () s') : s'.Advanced := by
  induction rounds generalizing s with
  | zero => cases run
  | succ rounds ih =>
    obtain ⟨again, s₁, first, rest⟩ := Solve.bind_run_eq_ok run
    have advanced := before.step first
    cases again with
    | true => exact ih advanced rest
    | false =>
      cases rest
      exact advanced

/-- The end of a run is intact, and its call graph is indexed. -/
theorem intact_of_solve (lawful : P.Lawful q) (run : Solve.solve (initial P) = .ok () s) :
    s.Intact ∧ s.callGraph.Indexed := by
  have reached : s.Reached := .solve .initial (Or.inl ⟨(), run⟩)
  have changes := (reached.grounded_moved lawful).2.changes
  refine ⟨?_, (callGraph_grows_of_changes changes CallGraph.indexed_empty).1⟩
  obtain ⟨⟨⟩, s₁, started, rest⟩ := Solve.bind_run_eq_ok run
  obtain ⟨⟨⟩, s₂, stepped, recorded⟩ := Solve.bind_run_eq_ok rest
  have advanced := (Advanced.initial.start started).stepAll stepped
  cases recorded
  exact (advanced.intact lawful).recorded

/-! ## Images -/

/-- The method that a method under a context is. -/
theorem methodImage_iff {x : CsMethodId} {m : MethodId} :
    (do return (← s.elements.csMethodAt x).method) = Except.ok (ε := OutOfRange) m ↔
      ∃ c, s.elements.csMethodAt x = .ok ⟨c, m⟩ := by
  rw [bind_eq_ok_iff]
  constructor
  · rintro ⟨⟨c, m'⟩, known, same⟩
    obtain rfl := pure_eq_ok_iff.1 same
    exact ⟨c, known⟩
  · rintro ⟨c, known⟩
    exact ⟨⟨c, m⟩, known, rfl⟩

/-- The call that a call site under a context is. -/
theorem siteImage_iff {j : CsCallSiteId} {i : InvokeId} :
    (do return (← s.elements.csCallSiteAt j).invoke) = Except.ok (ε := OutOfRange) i ↔
      ∃ c, s.elements.csCallSiteAt j = .ok ⟨c, i⟩ := by
  rw [bind_eq_ok_iff]
  constructor
  · rintro ⟨⟨c, i'⟩, known, same⟩
    obtain rfl := pure_eq_ok_iff.1 same
    exact ⟨c, known⟩
  · rintro ⟨c, known⟩
    exact ⟨⟨c, i⟩, known, rfl⟩

/-- Under every context, the call sites of a method are the calls of its body. -/
theorem Grounded.invokesIn_of_reachable (grounded : s.Grounded q) {x : CsMethodId}
    (listed : x ∈ s.callGraph.reachable.toList) {c : ContextId} {m : MethodId}
    (known : s.elements.csMethodAt x = .ok ⟨c, m⟩) :
    ∃ invokes, P.program.invokesIn m = .ok invokes ∧
      (s.callGraph.sitesIn x).mapM (fun j => do return (← s.elements.csCallSiteAt j).invoke) =
        .ok invokes := by
  obtain ⟨a, method, read, declared, sites⟩ := grounded.sites x listed
  obtain ⟨c', known', -⟩ := activation?_eq_some_iff.1 read
  have same := known'.symm.trans (fetch_eq_ok_iff.1 known)
  obtain ⟨-, rfl⟩ := CsMethod.mk.inj (Option.some.inj same)
  refine ⟨method.body.toList.filterMap Stmt.call?, ?_, ?_⟩
  · exact bind_eq_ok_iff.2 ⟨method, fetch_eq_ok_iff.2 declared, rfl⟩
  · rw [mapM_eq_ok_iff]
    exact map_eq_map_of_imp (fun j i point => invoke_of_callPoint? point) sites

/-! ## The merged graph -/

section Merge

variable {g : MethodCallGraph} (merged : s.mergedCallGraph = .ok g)
include merged

theorem indexed_merged : g.Indexed := by
  obtain ⟨entries, methods, edges, -, -, -, rfl⟩ := (CallGraph.project_eq_ok_iff _ _).1 merged
  exact CallGraph.indexed_assemble entries methods edges

/-- The methods of the entries, in their order. -/
theorem entries_merged (entered : s.Entered (distinct P.program.entries))
    (nodup : P.program.entries.Nodup) : g.entries.toList = P.program.entries := by
  obtain ⟨entries, methods, edges, listed, -, -, rfl⟩ := (CallGraph.project_eq_ok_iff _ _).1 merged
  rw [distinct_of_nodup nodup] at entered
  have images := map_eq_map_of_mapM (u := id) (v := CsMethod.method) listed entered
    fun x m y image known => by
      obtain ⟨c, known'⟩ := methodImage_iff.1 image
      rw [known] at known'
      obtain rfl := Except.ok.inj known'
      rfl
  rw [List.map_id, List.map_map] at images
  have same : entries = P.program.entries := images.trans (List.map_id' _)
  rw [CallGraph.entries_assemble, same, distinct_of_nodup nodup]

/-- The methods that can run under some context, in the order of their discovery. -/
theorem reachable_merged : ∃ images, s.callGraph.reachable.toList.mapM s.elements.csMethodAt = .ok images ∧
    g.reachable.toList = distinct (images.map CsMethod.method) := by
  obtain ⟨entries, methods, edges, -, listed, -, rfl⟩ := (CallGraph.project_eq_ok_iff _ _).1 merged
  have known : ∀ x ∈ s.callGraph.reachable.toList, ∃ y, s.elements.csMethodAt x = .ok y := by
    intro x mem
    obtain ⟨z, image⟩ := exists_eq_ok_of_mapM listed mem
    obtain ⟨c, found⟩ := methodImage_iff.1 ((CallGraph.methodImage_eq_ok_iff _ _).1 image).1
    exact ⟨_, found⟩
  obtain ⟨images, found⟩ := exists_mapM_eq_ok known
  refine ⟨images, found, ?_⟩
  rw [CallGraph.reachable_assemble, map_eq_map_of_mapM listed found]
  intro x z y image known
  obtain ⟨c, found⟩ := methodImage_iff.1 ((CallGraph.methodImage_eq_ok_iff _ _).1 image).1
  rw [known] at found
  rw [Except.ok.inj found]

theorem mem_reachable_merged {m : MethodId} : m ∈ g.reachable.toList ↔
    ∃ x ∈ s.callGraph.reachable.toList, ∃ c, s.elements.csMethodAt x = .ok ⟨c, m⟩ := by
  obtain ⟨images, found, same⟩ := reachable_merged merged
  rw [same, mem_distinct, List.mem_map]
  constructor
  · rintro ⟨y, mem, rfl⟩
    obtain ⟨x, listed, known⟩ := (mem_of_mapM_eq_ok found).1 mem
    exact ⟨x, listed, y.context, known⟩
  · rintro ⟨x, listed, c, known⟩
    exact ⟨⟨c, m⟩, (mem_of_mapM_eq_ok found).2 ⟨x, listed, known⟩, rfl⟩

theorem mem_edges_merged {kind : CallKind} {i : InvokeId} {m : MethodId} :
    ⟨kind, i, m⟩ ∈ g.edges.toList ↔ ∃ e ∈ s.callGraph.edges.toList, e.kind = kind ∧
      ∃ c c', s.elements.csCallSiteAt e.site = .ok ⟨c, i⟩ ∧
        s.elements.csMethodAt e.callee = .ok ⟨c', m⟩ := by
  obtain ⟨entries, methods, edges, -, -, listed, rfl⟩ := (CallGraph.project_eq_ok_iff _ _).1 merged
  rw [CallGraph.edges_assemble, mem_distinct, mem_of_mapM_eq_ok listed]
  refine exists_congr fun e => and_congr_right fun _ => ?_
  rw [CallGraph.edgeImage_eq_ok_iff, siteImage_iff, methodImage_iff]
  simp only [exists_and_left, exists_and_right]

section Grounded

variable (grounded : s.Grounded q)
include grounded

/-- The call sites of a method are the calls of its body, whatever the context that gave them. -/
theorem sitesIn_merged {m : MethodId} (reached : m ∈ g.reachable.toList) :
    P.program.invokesIn m = .ok (g.sitesIn m) := by
  obtain ⟨x, listed, c, known⟩ := (mem_reachable_merged merged).1 reached
  obtain ⟨invokes, found, -⟩ := grounded.invokesIn_of_reachable listed known
  obtain ⟨entries, methods, edges, -, images, -, rfl⟩ := (CallGraph.project_eq_ok_iff _ _).1 merged
  rw [found, CallGraph.sitesIn_assemble entries edges reached]
  intro z mem same
  obtain ⟨x', listed', image⟩ := (mem_of_mapM_eq_ok images).1 mem
  obtain ⟨method, sites⟩ := (CallGraph.methodImage_eq_ok_iff _ _).1 image
  obtain ⟨c', known'⟩ := methodImage_iff.1 method
  rw [same] at known'
  obtain ⟨invokes', found', sites'⟩ := grounded.invokesIn_of_reachable listed' known'
  rw [found] at found'
  rw [sites] at sites'
  exact (Except.ok.inj sites').trans (Except.ok.inj found').symm

/-- The call sites of a method stand in it. -/
theorem containerOf_merged (wf : P.program.WellFormed) {m : MethodId} {i : InvokeId}
    (reached : m ∈ g.reachable.toList) (mem : i ∈ g.sitesIn m) : g.containerOf i = some m := by
  have located : g.Located := by
    obtain ⟨entries, methods, edges, -, -, -, rfl⟩ := (CallGraph.project_eq_ok_iff _ _).1 merged
    exact CallGraph.located_assemble entries methods edges
  obtain ⟨m', container⟩ := located.located reached mem
  obtain ⟨reached', mem'⟩ := located.listed container
  obtain ⟨call, described, here⟩ :=
    wf.exists_invoke_of_mem_invokesIn (sitesIn_merged merged grounded reached) mem
  obtain ⟨call', described', there⟩ :=
    wf.exists_invoke_of_mem_invokesIn (sitesIn_merged merged grounded reached') mem'
  rw [described] at described'
  obtain rfl := Option.some.inj described'
  rw [container, ← there, here]

/-- The methods that a method calls are those that it calls under some context. -/
theorem mem_calleesOfMethod_merged (wf : P.program.WellFormed) (intact : s.Intact)
    (indexed : s.callGraph.Indexed) {m callee : MethodId} : callee ∈ g.calleesOfMethod m ↔
      ∃ x c y c', s.elements.csMethodAt x = .ok ⟨c, m⟩ ∧ y ∈ s.callGraph.calleesOfMethod x ∧
        s.elements.csMethodAt y = .ok ⟨c', callee⟩ := by
  rw [(indexed_merged merged).mem_calleesOfMethod]
  constructor
  · rintro ⟨i, mem, kind, edge⟩
    have reached : m ∈ g.reachable.toList := by
      by_contra absent
      rw [(indexed_merged merged).sites absent] at mem
      exact absurd mem List.not_mem_nil
    obtain ⟨call, described, container⟩ :=
      wf.exists_invoke_of_mem_invokesIn (sitesIn_merged merged grounded reached) mem
    obtain ⟨e, listed, -, c, c', site, target⟩ := (mem_edges_merged merged).1 edge
    obtain ⟨c₁, i₁, call₁, x, site₁, described₁, -, known, -, own, -⟩ := intact.edges e listed
    rw [site] at site₁
    obtain ⟨rfl, rfl⟩ := CsCallSite.mk.inj (Except.ok.inj site₁)
    have same := described.symm.trans (fetch_eq_ok_iff.1 described₁)
    obtain rfl := Option.some.inj same
    rw [container] at known
    exact ⟨x, c, e.callee, c', known, indexed.mem_calleesOfMethod.2 ⟨e.site, own, e.kind, listed⟩,
      target⟩
  · rintro ⟨x, c, y, c', known, calls, target⟩
    obtain ⟨j, own, kind, edge⟩ := indexed.mem_calleesOfMethod.1 calls
    have listed := intact.methods x _ known
    have reached := (mem_reachable_merged merged).2 ⟨x, listed, c, known⟩
    obtain ⟨invokes, found, images⟩ := grounded.invokesIn_of_reachable listed known
    have same : g.sitesIn m = invokes :=
      Except.ok.inj ((sitesIn_merged merged grounded reached).symm.trans found)
    obtain ⟨i, image⟩ := exists_eq_ok_of_mapM images own
    obtain ⟨c₁, site⟩ := siteImage_iff.1 image
    refine ⟨i, ?_, kind, (mem_edges_merged merged).2 ⟨_, edge, rfl, c₁, c', site, target⟩⟩
    rw [same]
    exact (mem_of_mapM_eq_ok images).2 ⟨j, own, image⟩

end Grounded

end Merge

end SolverState

/-! ## Results -/

namespace Result

variable {r : Result P}

/-- The callees of a method under a context are always given. -/
theorem exists_csCalleesOf (grounded : r.state.Grounded q) (indexed : r.state.callGraph.Indexed)
    (c : ContextId) (m : MethodId) : ∃ callees, r.csCalleesOf c m = .ok callees ∧
      ∀ y, y ∈ callees ↔ ∃ x z, r.state.elements.csMethodAt x = .ok ⟨c, m⟩ ∧
        z ∈ r.state.callGraph.calleesOfMethod x ∧ r.state.elements.csMethodAt z = .ok y := by
  rw [csCalleesOf, ElementStore.findCsMethod?]
  cases found : r.state.elements.methods.find? ⟨c, m⟩ with
  | none =>
    refine ⟨[], rfl, fun y => iff_of_false List.not_mem_nil ?_⟩
    rintro ⟨x, z, known, -⟩
    rw [Table.find?_eq_some_iff.2 (fetch_eq_ok_iff.1 known)] at found
    cases found
  | some i =>
    have caller := Table.find?_eq_some_iff.1 found
    have known : ∀ z ∈ r.state.callGraph.calleesOfMethod ⟨i⟩,
        ∃ y, r.state.elements.csMethodAt z = .ok y := by
      intro z mem
      obtain ⟨site, -, kind, edge⟩ := indexed.mem_calleesOfMethod.1 mem
      obtain ⟨-, a, -, read, -⟩ := grounded.callEdges _ edge
      obtain ⟨c', known, -⟩ := SolverState.activation?_eq_some_iff.1 read
      exact ⟨_, fetch_eq_ok_iff.2 known⟩
    obtain ⟨callees, given⟩ := exists_mapM_eq_ok known
    refine ⟨callees, given, fun y => ?_⟩
    rw [mem_of_mapM_eq_ok given]
    constructor
    · rintro ⟨z, mem, target⟩
      exact ⟨⟨i⟩, z, fetch_eq_ok_iff.2 caller, mem, target⟩
    · rintro ⟨x, z, same, mem, target⟩
      obtain rfl : x = ⟨i⟩ := Id.ext_index (Table.get?_injective (fetch_eq_ok_iff.1 same) caller)
      exact ⟨z, mem, target⟩

/-- The call graph of a result says what that of its state says, without contexts. -/
structure Merges (r : Result P) : Prop where
  /-- The entries are those of the program, in their order. -/
  entries : r.callGraph.entries.toList = P.program.entries
  reachable (m : MethodId) : m ∈ r.callGraph.reachable.toList ↔
    ∃ x ∈ r.state.callGraph.reachable.toList, ∃ c, r.state.elements.csMethodAt x = .ok ⟨c, m⟩
  /-- Methods are listed once, where they are discovered first. -/
  discovered : ∃ images,
    r.state.callGraph.reachable.toList.mapM r.state.elements.csMethodAt = .ok images ∧
      r.callGraph.reachable.toList = distinct (images.map CsMethod.method)
  reachableOnce : r.callGraph.reachable.toList.Nodup
  edges (kind : CallKind) (i : InvokeId) (m : MethodId) :
    ⟨kind, i, m⟩ ∈ r.callGraph.edges.toList ↔ ∃ e ∈ r.state.callGraph.edges.toList, e.kind = kind ∧
      ∃ c c', r.state.elements.csCallSiteAt e.site = .ok ⟨c, i⟩ ∧
        r.state.elements.csMethodAt e.callee = .ok ⟨c', m⟩
  edgesOnce : r.callGraph.edges.toList.Nodup
  /-- The call sites of a method are the calls of its body, in their order. -/
  sites : ∀ m ∈ r.callGraph.reachable.toList, P.program.invokesIn m = .ok (r.callGraph.sitesIn m) ∧
    ∀ i ∈ r.callGraph.sitesIn m, r.callGraph.containerOf i = some m
  callees (m : MethodId) : (∀ c, ∃ callees, r.csCalleesOf c m = .ok callees) ∧
    ∀ callee, callee ∈ r.callGraph.calleesOfMethod m ↔
      ∃ c callees c', r.csCalleesOf c m = .ok callees ∧ ⟨c', callee⟩ ∈ callees
  callers (i : InvokeId) (m : MethodId) :
    m ∈ r.callGraph.calleesOf i ↔ i ∈ r.callGraph.callersOf m

end Result

namespace Problem

theorem run_of_analyze {collectStats : Bool} {r : Result P} (done : P.analyze collectStats = .ok r) :
    Solve.solve (.initial P) = .ok () r.state ∧ r.state.mergedCallGraph = .ok r.callGraph := by
  cases run : Solve.solve.run (SolverState.initial P) with
  | error e s =>
    simp only [analyze, run] at done
    cases done
  | ok a s =>
    simp only [analyze, run] at done
    cases merged : s.mergedCallGraph with
    | error e =>
      rw [Result.ofState, merged] at done
      cases done
    | ok g =>
      rw [Result.ofState, merged] at done
      cases done
      exact ⟨run, merged⟩

theorem merges_of_regular (regular : P.Regular q) (nodup : P.program.entries.Nodup)
    {collectStats : Bool} {r : Result P} (done : P.analyze collectStats = .ok r) : r.Merges := by
  have lawful := regular.toLawful
  have wf := lawful.program
  have grounded := (complete_of_analyze regular done).finished.grounded
  obtain ⟨run, merged⟩ := run_of_analyze done
  obtain ⟨intact, indexed⟩ := SolverState.intact_of_solve lawful run
  constructor
  case entries => exact SolverState.entries_merged merged (Solve.solve_entered run) nodup
  case reachable => exact fun m => SolverState.mem_reachable_merged merged
  case discovered => exact SolverState.reachable_merged merged
  case reachableOnce => exact r.callGraph.reachable.nodup_toList
  case edges => exact fun kind i m => SolverState.mem_edges_merged merged
  case edgesOnce => exact r.callGraph.edges.nodup_toList
  case sites =>
    exact fun m reached => ⟨SolverState.sitesIn_merged merged grounded reached,
      fun i mem => SolverState.containerOf_merged merged grounded wf reached mem⟩
  case callees =>
    intro m
    have given := Result.exists_csCalleesOf grounded indexed
    refine ⟨fun c => (given c m).imp fun _ => And.left, fun callee => ?_⟩
    rw [SolverState.mem_calleesOfMethod_merged merged grounded wf intact indexed]
    constructor
    · rintro ⟨x, c, y, c', known, mem, target⟩
      obtain ⟨callees, answer, members⟩ := given c m
      exact ⟨c, callees, c', answer, (members _).2 ⟨x, y, known, mem, target⟩⟩
    · rintro ⟨c, callees, c', answer, mem⟩
      obtain ⟨callees', answer', members⟩ := given c m
      rw [answer] at answer'
      obtain rfl := Except.ok.inj answer'
      obtain ⟨x, y, known, mem, target⟩ := (members _).1 mem
      exact ⟨x, c, y, c', known, mem, target⟩
  case callers =>
    intro i m
    have indexed' := SolverState.indexed_merged merged
    rw [indexed'.callees, indexed'.callers]

end Problem

/-! ## Analyses of built programs -/

namespace Config

variable {p : Program}

/-- Whatever the program and the configuration, the call graph of a result is the call graph under
contexts without the contexts. -/
theorem merges_of_analyze (c : Config) (built : p.Built) :
    ∃ h, Hierarchy.ofProgram p = .ok h ∧ h.program = p ∧
      ∀ r, (c.problem .bySite h).analyze c.collectStats = .ok r → r.Merges := by
  obtain ⟨h, hierarchy, same⟩ := Hierarchy.exists_ofProgram built.wellFormed.toChecked
  refine ⟨h, hierarchy, same, fun r done => ?_⟩
  refine Problem.merges_of_regular (c.problem_regular built hierarchy) ?_ done
  have entries : (c.problem .bySite h).program.entries = p.entries := congrArg Program.entries same
  rw [entries]
  exact built.nodup_entries

/-- The method that calls itself is reachable under three contexts. -/
theorem merges_of_analyze_selfGrowing : selfGrowing.Built ∧
    ∃ h r, Hierarchy.ofProgram selfGrowing = .ok h ∧
      (Preset.thorough.config.problem .bySite h).analyze Preset.thorough.config.collectStats = .ok r ∧
      r.Merges ∧ r.state.callGraph.reachable.size = 4 ∧
      r.callGraph.reachable.toList = [⟨0⟩, ⟨1⟩] := by
  obtain ⟨h, hierarchy, -, merges⟩ := merges_of_analyze Preset.thorough.config built_selfGrowing
  have runs : selfGrowing.passes (fun h =>
      match (Preset.thorough.config.problem .bySite h).analyze Preset.thorough.config.collectStats with
      | .error _ => false
      | .ok r => decide (r.state.callGraph.reachable.size = 4) &&
          decide (r.callGraph.reachable.toList = [⟨0⟩, ⟨1⟩])) = true := by
    decide +kernel
  have runs := Program.test_of_passes hierarchy runs
  split at runs
  · cases runs
  · rename_i r done
    obtain ⟨size, methods⟩ := Bool.and_eq_true_iff.1 runs
    exact ⟨built_selfGrowing, h, r, hierarchy, done, merges r done, of_decide_eq_true size,
      of_decide_eq_true methods⟩

end Config

end PointsTo
