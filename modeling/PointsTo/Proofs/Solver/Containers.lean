import PointsTo.Proofs.Solver.Grounded
import PointsTo.Proofs.Solver.Whole

/-!
# Containers of call sites

The call sites of a reachable method are the calls in its body under its context, so a call site
belongs to one method only. In a whole state, the container of a call site is the caller of its edges,
and the call graph by itself shows how every reachable method is reached from an entry.
-/

namespace PointsTo

open Inclusion

/-- One method calls another by an edge of a call graph. -/
def CallGraph.HasCall {s m : Entity} (g : CallGraph s m) (caller callee : Id m) : Prop :=
  ∃ e ∈ g.edges.toList, g.containerOf e.site = some caller ∧ e.callee = callee

variable {P : Problem} {q : Policy}

namespace SolverState

variable {s : SolverState P}

section Distinct

variable (distinct : s.DistinctSites)
include distinct

theorem activation?_injective {m m' : CsMethodId} {a : Activation} (read : s.activation? m = some a)
    (read' : s.activation? m' = some a) : m = m' := by
  obtain ⟨c, known, trail⟩ := activation?_eq_some_iff.1 read
  obtain ⟨c', known', trail'⟩ := activation?_eq_some_iff.1 read'
  rw [← trail?_injective distinct trail trail'] at known'
  exact Id.ext_index (Table.get?_injective known known')

theorem callPoint?_injective {i i' : CsCallSiteId} {site : CallPoint}
    (read : s.callPoint? i = some site) (read' : s.callPoint? i' = some site) : i = i' := by
  obtain ⟨c, known, trail⟩ := callPoint?_eq_some_iff.1 read
  obtain ⟨c', known', trail'⟩ := callPoint?_eq_some_iff.1 read'
  rw [← trail?_injective distinct trail trail'] at known'
  exact Id.ext_index (Table.get?_injective known known')

end Distinct

/-! ## The call sites of a method -/

section Sites

variable (lawful : P.Lawful q) (grounded : s.Grounded q) {m : CsMethodId} {j : CsCallSiteId}
  (listed : m ∈ s.callGraph.reachable.toList)
include lawful grounded listed

omit lawful in
/-- Every call in the body of a reachable method is among its call sites. -/
theorem Grounded.exists_mem_sitesIn {a : Activation} (read : s.activation? m = some a)
    {i : InvokeId} {call : Invoke} (site : CallIn P.hierarchy a.method i call) :
    ∃ j ∈ s.callGraph.sitesIn m, s.callPoint? j = some ⟨a.trail, i⟩ := by
  obtain ⟨a', method, read', declared, points⟩ := grounded.sites m listed
  rw [read] at read'
  obtain rfl := Option.some.inj read'
  obtain ⟨position, stands⟩ := site.stmt
  obtain ⟨method', declared', at_⟩ := Program.stmt?_eq_some_iff.1 stands
  obtain rfl := Option.some.inj (declared.symm.trans declared')
  have called : i ∈ method.body.toList.filterMap Stmt.call? :=
    List.mem_filterMap.2 ⟨.invoke i, Array.mem_toList_iff.2 (Array.mem_of_getElem? at_), rfl⟩
  have point : some ⟨a.trail, i⟩ ∈ (s.callGraph.sitesIn m).map s.callPoint? := by
    rw [points]
    exact List.mem_map_of_mem called
  exact List.mem_map.1 point

/-- A call site of a reachable method is a call in its body, under its context. -/
theorem Grounded.callIn_of_mem_sitesIn (mem : j ∈ s.callGraph.sitesIn m) :
    ∃ t i call, s.callPoint? j = some ⟨t, i⟩ ∧ P.program.invokes[i.index]? = some call ∧
      s.activation? m = some ⟨t, call.container⟩ := by
  obtain ⟨⟨t, m'⟩, method, read, declared, points⟩ := grounded.sites m listed
  have point : s.callPoint? j ∈ (s.callGraph.sitesIn m).map s.callPoint? := List.mem_map_of_mem mem
  rw [points] at point
  obtain ⟨i, called, same⟩ := List.mem_map.1 point
  obtain ⟨stmt, body, calls⟩ := List.mem_filterMap.1 called
  obtain ⟨position, at_⟩ := Array.mem_iff_getElem?.1 (Array.mem_toList_iff.1 body)
  have stands : P.program.stmt? m' position = some stmt :=
    Program.stmt?_eq_some_iff.2 ⟨method, declared, at_⟩
  cases stmt <;> cases calls
  obtain ⟨call, described, container, -⟩ := (lawful.program.stmts m' position _ stands).called i rfl
  exact ⟨t, i, call, same.symm, described, by rw [container]; exact read⟩

/-- A call site belongs to one reachable method. -/
theorem Grounded.eq_of_mem_sitesIn (mem : j ∈ s.callGraph.sitesIn m) {m' : CsMethodId}
    (listed' : m' ∈ s.callGraph.reachable.toList) (mem' : j ∈ s.callGraph.sitesIn m') : m = m' := by
  obtain ⟨t, i, call, point, described, read⟩ := grounded.callIn_of_mem_sitesIn lawful listed mem
  obtain ⟨t', i', call', point', described', read'⟩ :=
    grounded.callIn_of_mem_sitesIn lawful listed' mem'
  rw [point] at point'
  obtain ⟨rfl, rfl⟩ := CallPoint.mk.inj (Option.some.inj point')
  obtain rfl := Option.some.inj (described.symm.trans described')
  exact activation?_injective (grounded.distinctSites lawful) read read'

end Sites

/-! ## The callers of edges -/

section Callers

variable (lawful : P.Lawful q) (grounded : s.Grounded q) (located : s.callGraph.Located)
  (whole : s.Whole [])
include lawful grounded located whole

/-- The container of the site of an edge is its caller, which is reachable as its callee is. -/
theorem Whole.caller {e : CallEdge .csCallSite .csMethod} {x y : CsMethod} (links : s.Links e x y)
    {m : CsMethodId} (known : s.elements.methods.get? m.index = some x) :
    m ∈ s.callGraph.reachable.toList ∧ e.site ∈ s.callGraph.sitesIn m ∧
      s.callGraph.containerOf e.site = some m ∧ e.callee ∈ s.callGraph.reachable.toList := by
  have reachable : ∀ {m x}, s.elements.methods.get? (m : CsMethodId).index = some x →
      m ∈ s.callGraph.reachable.toList :=
    fun {m x} known => (whole.visited m x known).resolve_right List.not_mem_nil
  have listed := reachable known
  obtain ⟨t, trail, read, -⟩ := grounded.exists_activation? known
  obtain ⟨i, call, at_, site⟩ := links.site
  obtain ⟨j, mem, point⟩ := grounded.exists_mem_sitesIn listed read site
  have point' : s.callPoint? e.site = some ⟨t, i⟩ := callPoint?_eq_some_iff.2 ⟨_, at_, trail⟩
  obtain rfl := callPoint?_injective (grounded.distinctSites lawful) point point'
  obtain ⟨m', container⟩ := located.located listed mem
  obtain ⟨listed', mem'⟩ := located.listed container
  obtain rfl := grounded.eq_of_mem_sitesIn lawful listed mem listed' mem'
  exact ⟨listed, mem, container, reachable links.callee⟩

/-- A method is reachable exactly if calls lead to it from an entry. -/
theorem Whole.reachable_iff {m : CsMethodId} : m ∈ s.callGraph.reachable.toList ↔
    ∃ entry ∈ s.callGraph.entries.toList, Relation.ReflTransGen s.callGraph.HasCall entry m := by
  constructor
  · intro listed
    obtain ⟨⟨t, method⟩, read, -⟩ := grounded.reachable m listed
    obtain ⟨c, known, -⟩ := activation?_eq_some_iff.1 read
    obtain ⟨x, ⟨entry, entered, start⟩, path⟩ := whole.connected _ (Table.mem_toList_of_get? known)
    refine ⟨entry, entered, ?_⟩
    -- the same path, read off the graph
    have along : ∀ y, Relation.ReflTransGen s.Calls x y → ∀ m' : CsMethodId,
        s.elements.methods.get? m'.index = some y →
          Relation.ReflTransGen s.callGraph.HasCall entry m' := by
      intro y path
      induction path with
      | refl =>
        intro m' found
        rw [Id.ext_index (Table.get?_injective start found)]
      | @tail y z _ last ih =>
        intro m' found
        obtain ⟨e, edge, links⟩ := last
        obtain ⟨k, present⟩ := Table.mem_toList_iff_get?.1 links.caller
        obtain ⟨-, -, container, -⟩ :=
          whole.caller lawful grounded located links (m := ⟨k⟩) present
        have callee : e.callee = m' := Id.ext_index (Table.get?_injective links.callee found)
        exact (ih ⟨k⟩ present).tail ⟨e, edge, container, callee⟩
    exact along _ path m known
  · rintro ⟨entry, entered, path⟩
    induction path with
    | refl =>
      obtain ⟨e, -, read⟩ := grounded.entries entry entered
      obtain ⟨c, known, -⟩ := activation?_eq_some_iff.1 read
      exact (whole.visited entry _ known).resolve_right List.not_mem_nil
    | tail _ last _ =>
      obtain ⟨e, edge, -, rfl⟩ := last
      obtain ⟨x, y, links⟩ := whole.linked e edge
      exact (whole.visited _ y links.callee).resolve_right List.not_mem_nil

end Callers

end SolverState

end PointsTo
