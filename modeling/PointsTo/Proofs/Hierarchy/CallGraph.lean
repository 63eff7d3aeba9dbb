import Mathlib.Data.List.ReduceOption
import PointsTo.CallGraph.ByHierarchy
import PointsTo.Proofs.CallGraph
import PointsTo.Proofs.Hierarchy.Total

/-!
# Call graphs by declared types

The call graph of a hierarchy exists for declared entries. It has the entries, every method that a
call of one of its methods may reach, and an edge for each of these, and nothing else.
-/

namespace PointsTo

open Inclusion

namespace Program

variable {p : Program}

theorem mem_invokesIn {m : MethodId} {l : List InvokeId} (found : p.invokesIn m = .ok l)
    {i : InvokeId} : i ∈ l ↔ ∃ position, p.stmt? m position = some (.invoke i) := by
  obtain ⟨method, lookup, same⟩ := bind_eq_ok_iff.1 found
  obtain rfl := pure_eq_ok_iff.1 same
  have declared := fetch_eq_ok_iff.1 lookup
  rw [List.mem_filterMap]
  constructor
  · rintro ⟨stmt, listed, call⟩
    obtain ⟨position, stands⟩ := Array.mem_iff_getElem?.1 (Array.mem_toList_iff.1 listed)
    cases stmt <;> simp [Stmt.call?] at call
    subst call
    exact ⟨position, stmt?_eq_some_iff.2 ⟨method, declared, stands⟩⟩
  · rintro ⟨position, stands⟩
    obtain ⟨method', declared', stands⟩ := stmt?_eq_some_iff.1 stands
    rw [declared] at declared'
    obtain rfl := Option.some.inj declared'
    exact ⟨.invoke i, Array.mem_toList_iff.2 (Array.mem_of_getElem? stands), rfl⟩

end Program

namespace Hierarchy

/-- What a call may reach by the declared types alone. -/
def MayCall (h : Hierarchy) (call : Invoke) (callee : MethodId) : Prop :=
  match call.kind with
  | .static => h.resolveStatic call.target = .ok (some callee)
  | .special => h.resolveSpecial call.target = .ok (some callee)
  | .virtual | .interface => ∃ l, h.subtypes call.target.owner = .ok l ∧
      ∃ c ∈ l, h.dispatch c call.target.subsignature = .ok (some callee)

variable {h : Hierarchy} (wf : h.program.WellFormed) (rows : Rows h.program.classes.size h)
include wf rows

/-! ## Targets of calls -/

omit rows in
theorem exists_dispatchAll (s : Subsignature) {l : List ClassId}
    (declared : ∀ c ∈ l, c.index < h.program.classes.size) :
    ∃ ms, h.dispatchAll s l = .ok ms ∧ ∀ m, m ∈ ms ↔ ∃ c ∈ l, h.dispatch c s = .ok (some m) := by
  obtain ⟨found, dispatched⟩ := exists_mapM_eq_ok fun c hc =>
    (exists_dispatch wf (declared c hc) s).imp fun _ => And.left
  refine ⟨distinct found.reduceOption, by rw [dispatchAll, dispatched]; rfl, fun m => ?_⟩
  rw [mem_distinct, List.reduceOption_mem_iff, mem_of_mapM_eq_ok dispatched]

theorem exists_targets {i : InvokeId} {call : Invoke}
    (described : h.program.invokes[i.index]? = some call)
    (owner : call.target.owner.index < h.program.classes.size) :
    ∃ ms, h.targets i = .ok ms ∧ ∀ m, m ∈ ms ↔ h.MayCall call m := by
  have lookup : h.program.invokeAt i = .ok call := fetch_eq_ok_iff.2 described
  have single : ∀ (found : Option MethodId) (m : MethodId),
      m ∈ found.toList ↔ Except.ok (ε := OutOfRange) found = .ok (some m) := by
    intro found m
    rw [Option.mem_toList, Except.ok.injEq]
  have below : ∃ ms, (do h.dispatchAll call.target.subsignature (← h.subtypes call.target.owner)) =
      .ok ms ∧ ∀ m, m ∈ ms ↔ ∃ l, h.subtypes call.target.owner = .ok l ∧
        ∃ c ∈ l, h.dispatch c call.target.subsignature = .ok (some m) := by
    obtain ⟨l, subtypes, -, declared⟩ := exists_subtypes rows owner
    obtain ⟨ms, all, members⟩ := exists_dispatchAll wf call.target.subsignature declared
    refine ⟨ms, bind_eq_ok_iff.2 ⟨l, subtypes, all⟩, fun m => ?_⟩
    simp only [members, subtypes, Except.ok.injEq, exists_eq_left']
  simp only [targets, lookup, MayCall, bind, Except.bind]
  cases call.kind with
  | static =>
    obtain ⟨found, resolved, -⟩ := exists_resolveStatic wf owner
    simp only [resolved]
    exact ⟨found.toList, rfl, single found⟩
  | special =>
    obtain ⟨found, resolved, -⟩ := exists_dispatch wf owner call.target.subsignature
    simp only [resolveSpecial, resolved]
    exact ⟨found.toList, rfl, single found⟩
  | virtual => exact below
  | interface => exact below

omit rows in
theorem exists_invokesIn {m : MethodId} (declared : m.index < h.program.methods.size) :
    ∃ l, h.program.invokesIn m = .ok l ∧ ∀ i, i ∈ l ↔ ∃ call, CallIn h m i call := by
  obtain ⟨method, lookup⟩ := exists_methodAt declared
  have found : h.program.invokesIn m = .ok (method.body.toList.filterMap Stmt.call?) := by
    rw [Program.invokesIn, lookup]
    rfl
  refine ⟨_, found, fun i => ?_⟩
  rw [Program.mem_invokesIn found]
  constructor
  · rintro ⟨position, stands⟩
    obtain ⟨call, described, -⟩ := (wf.stmts m position _ stands).called i rfl
    exact ⟨call, ⟨position, stands⟩, described⟩
  · rintro ⟨call, site⟩
    exact site.stmt

/-- The calls of a method may reach what each of them may reach. -/
theorem exists_successors {m : MethodId} (declared : m.index < h.program.methods.size) :
    ∃ ms, h.successors m = .ok ms ∧
      ∀ k, k ∈ ms ↔ ∃ i call, CallIn h m i call ∧ h.MayCall call k := by
  obtain ⟨l, invokes, sites⟩ := exists_invokesIn wf declared
  have targets : ∀ i ∈ l, ∃ ms, h.targets i = .ok ms ∧
      ∀ k, k ∈ ms ↔ ∃ call, CallIn h m i call ∧ h.MayCall call k := by
    intro i mem
    obtain ⟨call, site⟩ := (sites i).1 mem
    obtain ⟨ms, found, members⟩ := exists_targets wf rows site.call (site.admitted wf).2.1
    refine ⟨ms, found, fun k => ?_⟩
    rw [members]
    constructor
    · exact fun may => ⟨call, site, may⟩
    · rintro ⟨call', site', may⟩
      rwa [site.unique site']
  obtain ⟨lists, found⟩ := exists_mapM_eq_ok fun i mem => (targets i mem).imp fun _ => And.left
  refine ⟨lists.flatten, ?_, fun k => ?_⟩
  · simp only [successors, invokes, found, bind, Except.bind]
    rfl
  · rw [List.mem_flatten]
    constructor
    · rintro ⟨ms, listed, mem⟩
      obtain ⟨i, hi, lookup⟩ := (mem_of_mapM_eq_ok found).1 listed
      obtain ⟨ms', lookup', members⟩ := targets i hi
      rw [lookup] at lookup'
      obtain rfl := Except.ok.inj lookup'
      exact ⟨i, (members k).1 mem⟩
    · rintro ⟨i, call, site, may⟩
      obtain ⟨ms, lookup, members⟩ := targets i ((sites i).2 ⟨call, site⟩)
      exact ⟨ms, (mem_of_mapM_eq_ok found).2 ⟨i, (sites i).2 ⟨call, site⟩, lookup⟩,
        (members k).2 ⟨call, site, may⟩⟩

/-- A call may reach declared methods only. -/
theorem MayCall.declared {call : Invoke} {callee : MethodId} (may : h.MayCall call callee)
    (owner : call.target.owner.index < h.program.classes.size) :
    callee.index < h.program.methods.size := by
  unfold MayCall at may
  split at may
  · obtain ⟨found, resolved, inside⟩ := exists_resolveStatic wf owner
    rw [may] at resolved
    exact inside callee (Except.ok.inj resolved).symm
  · obtain ⟨found, resolved, inside⟩ := exists_dispatch wf owner call.target.subsignature
    have may : h.dispatch _ _ = _ := may
    rw [may] at resolved
    exact inside callee (Except.ok.inj resolved).symm
  all_goals
    obtain ⟨l, subtypes, c, listed, may⟩ := may
    obtain ⟨l', subtypes', -, declared⟩ := exists_subtypes rows owner
    rw [subtypes] at subtypes'
    obtain rfl := Except.ok.inj subtypes'
    obtain ⟨found, resolved, inside⟩ := exists_dispatch wf (declared c listed) call.target.subsignature
    rw [may] at resolved
    exact inside callee (Except.ok.inj resolved).symm

/-! ## The graph -/

theorem exists_addCallEdges {i : InvokeId} {call : Invoke}
    (described : h.program.invokes[i.index]? = some call)
    (owner : call.target.owner.index < h.program.classes.size) (g : MethodCallGraph) :
    ∃ g', h.addCallEdges g i = .ok g' ∧ g'.reachable = g.reachable ∧
      ∀ e, e ∈ g'.edges.toList ↔ e ∈ g.edges.toList ∨
        e.kind = call.kind ∧ e.site = i ∧ h.MayCall call e.callee := by
  obtain ⟨ms, found, members⟩ := exists_targets wf rows described owner
  have lookup : h.program.invokeAt i = .ok call := fetch_eq_ok_iff.2 described
  obtain ⟨reachable, edges⟩ := CallGraph.foldl_addEdge call.kind i ms g
  refine ⟨_, ?_, reachable, fun e => ?_⟩
  · simp only [addCallEdges, lookup, found, bind, Except.bind]
    rfl
  · rw [edges, members]

/-- What a caller adds to a call graph: itself and the edges of its calls. -/
def Adds (h : Hierarchy) (m : MethodId) : MethodId ⊕ CallEdge .invoke .method → Prop
  | .inl k => k = m
  | .inr e => ∃ call, CallIn h m e.site call ∧ e.kind = call.kind ∧ h.MayCall call e.callee

theorem exists_addCaller {m : MethodId} (declared : m.index < h.program.methods.size)
    (g : MethodCallGraph) :
    ∃ g', h.addCaller g m = .ok g' ∧ ∀ x, g'.Has x ↔ g.Has x ∨ h.Adds m x := by
  obtain ⟨l, invokes, sites⟩ := exists_invokesIn wf declared
  have step : ∀ i ∈ l, ∀ g : MethodCallGraph, ∃ g', h.addCallEdges g i = .ok g' ∧
      g'.reachable = g.reachable ∧ ∀ e, e ∈ g'.edges.toList ↔ e ∈ g.edges.toList ∨
        ∃ call, CallIn h m i call ∧ e.kind = call.kind ∧ e.site = i ∧ h.MayCall call e.callee := by
    intro i mem g
    obtain ⟨call, site⟩ := (sites i).1 mem
    obtain ⟨g', added, reachable, edges⟩ :=
      exists_addCallEdges wf rows site.call (site.admitted wf).2.1 g
    refine ⟨g', added, reachable, fun e => ?_⟩
    rw [edges]
    apply or_congr_right
    constructor
    · exact fun holds => ⟨call, site, holds⟩
    · rintro ⟨call', site', holds⟩
      rwa [site.unique site']
  obtain ⟨g', folded, reachable, edges⟩ := exists_foldlM_mem_iff step (g.addReachable m l).2
  refine ⟨g', ?_, ?_⟩
  · simp only [addCaller, invokes, bind, Except.bind]
    exact folded
  · rintro (k | e)
    · simp only [CallGraph.Has, reachable, CallGraph.mem_reachable_addReachable, Adds]
    · simp only [CallGraph.Has, edges, CallGraph.edges_addReachable, Adds]
      apply or_congr_right
      constructor
      · rintro ⟨i, -, call, site, kind, rfl, may⟩
        exact ⟨call, site, kind, may⟩
      · rintro ⟨call, site, kind, may⟩
        exact ⟨e.site, (sites e.site).2 ⟨call, site⟩, call, site, kind, rfl, may⟩

/-- Declared entries have a closure under calls. -/
theorem exists_closure_successors {entries : List MethodId}
    (declared : ∀ m ∈ entries, m.index < h.program.methods.size) :
    ∃ t, closure h.successors h.program.methods.size entries = .ok t ∧
      Table.Expands h.successors 0 (.ofList entries) t ∧
      ∀ m ∈ t.toList, m.index < h.program.methods.size := by
  have known : ∀ m : MethodId, m.index < h.program.methods.size →
      ∃ ms, h.successors m = .ok ms ∧ ∀ k ∈ ms, k.index < h.program.methods.size := by
    intro m inside
    obtain ⟨ms, found, members⟩ := exists_successors wf rows inside
    refine ⟨ms, found, fun k mem => ?_⟩
    obtain ⟨i, call, site, may⟩ := (members k).1 mem
    exact may.declared wf rows (site.admitted wf).2.1
  exact exists_closure (fun _ inside => inside) known declared

/-- The call graph of a hierarchy has the closure of the entries under calls, and the edges of the
calls of these methods. -/
theorem exists_callGraphFrom {entries : List MethodId}
    (declared : ∀ m ∈ entries, m.index < h.program.methods.size) :
    ∃ g t, h.callGraphFrom entries = .ok g ∧
      t.toList.foldlM h.addCaller (entries.foldl CallGraph.addEntry .empty) = .ok g ∧
      Table.Expands h.successors 0 (.ofList entries) t ∧
      (∀ m ∈ t.toList, m.index < h.program.methods.size) ∧
      ∀ x, g.Has x ↔ ∃ m ∈ t.toList, h.Adds m x := by
  obtain ⟨t, closed, expands, inside⟩ := exists_closure_successors wf rows declared
  have step : ∀ m ∈ t.toList, ∀ g : MethodCallGraph, ∃ g', h.addCaller g m = .ok g' ∧
      () = () ∧ ∀ x, g'.Has x ↔ g.Has x ∨ h.Adds m x := by
    intro m mem g
    obtain ⟨g', added, has⟩ := exists_addCaller wf rows (inside m mem) g
    exact ⟨g', added, rfl, has⟩
  obtain ⟨g, folded, -, has⟩ := exists_foldlM_mem_iff step
    (entries.foldl CallGraph.addEntry .empty)
  obtain ⟨noMethods, noEdges⟩ := CallGraph.foldl_addEntry entries (.empty : MethodCallGraph)
  refine ⟨g, t, ?_, folded, expands, inside, fun x => ?_⟩
  · simp only [callGraphFrom, closed, bind, Except.bind]
    exact folded
  · rw [has, or_iff_right]
    cases x with
    | inl m =>
      rw [CallGraph.Has, noMethods]
      exact CallGraph.reachable_empty m
    | inr e =>
      rw [CallGraph.Has, noEdges]
      exact CallGraph.edges_empty e

/-- The call graph of a program has its entries, and with each of its methods whatever the calls of
the method may reach. -/
structure Covers (h : Hierarchy) (g : MethodCallGraph) : Prop where
  entries {m : MethodId} : m ∈ h.program.entries → m ∈ g.reachable.toList
  calls {m callee : MethodId} {i : InvokeId} {call : Invoke} : m ∈ g.reachable.toList →
    CallIn h m i call → h.MayCall call callee →
    ⟨call.kind, i, callee⟩ ∈ g.edges.toList ∧ callee ∈ g.reachable.toList

theorem exists_callGraph : ∃ g, h.callGraph = .ok g ∧ h.Covers g := by
  obtain ⟨g, t, found, -, expands, inside, has⟩ := exists_callGraphFrom wf rows wf.entries
  obtain ⟨seeds, closed⟩ := expands.closed_of_seeds
  have reachable : ∀ m, m ∈ g.reachable.toList ↔ m ∈ t.toList := by
    intro m
    have listed := has (.inl m)
    simp only [CallGraph.Has, Adds, exists_eq_right'] at listed
    exact listed
  refine ⟨g, found, fun mem => (reachable _).2 (seeds _ mem), ?_⟩
  intro m callee i call running site may
  have mem := (reachable m).1 running
  constructor
  · exact (has (.inr ⟨call.kind, i, callee⟩)).2 ⟨m, mem, call, site, rfl, may⟩
  · obtain ⟨ms, successors, members⟩ := exists_successors wf rows (inside m mem)
    have next : callee ∈ ms := (members callee).2 ⟨i, call, site, may⟩
    exact (reachable callee).2 (closed m mem ms successors callee next)

end Hierarchy

end PointsTo
