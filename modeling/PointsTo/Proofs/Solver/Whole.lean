import PointsTo.Proofs.Inclusion.Rules
import PointsTo.Proofs.Program.WellFormed
import PointsTo.Proofs.Solver.Quiet

/-!
# Integrity of the call graph

A call is added to the call graph before its callee is visited, and the receiver variable of a callee
before the callee itself is known. `Whole` is the invariant that holds in between: the methods that
wait to be visited are given with it. Whatever else is known of a method under a context has been
asked for by a chain of calls from an entry.
-/

namespace PointsTo

open Inclusion

variable {P : Problem}

/-- A location is a variable of a method under its context. -/
def Program.IsLocal (p : Program) (x : CsMethod) (k : PointerKey) : Prop :=
  ∃ v, k = .var x.context v ∧ p.Owns x.method v

namespace SolverState

/-! ## Calls between methods under contexts -/

section Calls

variable (s : SolverState P)

/-- If a location is a variable, its method is known under its context. -/
def Housed : PointerKey → Prop
  | .var c v => ∃ m, P.program.Owns m v ∧ ⟨c, m⟩ ∈ s.elements.methods.toList
  | _ => True

/-- A call edge goes from a call in the body of a known method to another method. -/
structure Links (e : CallEdge .csCallSite .csMethod) (x y : CsMethod) : Prop where
  caller : x ∈ s.elements.methods.toList
  site : ∃ i call, s.elements.callSites.get? e.site.index = some ⟨x.context, i⟩ ∧
    CallIn P.hierarchy x.method i call
  callee : s.elements.methods.get? e.callee.index = some y

/-- One method calls another. -/
def Calls (x y : CsMethod) : Prop :=
  ∃ e ∈ s.callGraph.edges.toList, s.Links e x y

/-- A method is an entry. -/
def Enters (x : CsMethod) : Prop :=
  ∃ m ∈ s.callGraph.entries.toList, s.elements.methods.get? m.index = some x

/-- Calls lead from an entry to a method. -/
def Connected (y : CsMethod) : Prop :=
  ∃ x, s.Enters x ∧ Relation.ReflTransGen s.Calls x y

/-- All calls have known callers, and all known methods have been called from an entry and have been
visited, but for some that wait to be visited. -/
structure Whole (waiting : List CsMethodId) (s : SolverState P) : Prop where
  housed : ∀ k ∈ s.elements.pointers.toList, s.Housed k
  linked : ∀ e ∈ s.callGraph.edges.toList, ∃ x y, s.Links e x y
  visited : ∀ (m : CsMethodId) (x : CsMethod), s.elements.methods.get? m.index = some x →
    m ∈ s.callGraph.reachable.toList ∨ m ∈ waiting
  connected : ∀ y ∈ s.elements.methods.toList, s.Connected y

end Calls

variable {s s' s'' : SolverState P} {waiting waiting' : List CsMethodId}

section Kept

variable (kept : s.Kept s')
include kept

theorem Kept.housed {k : PointerKey} (housed : s.Housed k) : s'.Housed k := by
  cases k with
  | var c v =>
    obtain ⟨m, owns, known⟩ := housed
    exact ⟨m, owns, kept.methods.subset known⟩
  | _ => trivial

theorem Kept.links {e : CallEdge .csCallSite .csMethod} {x y : CsMethod} (links : s.Links e x y) :
    s'.Links e x y := by
  obtain ⟨caller, ⟨i, call, point, site⟩, callee⟩ := links
  exact ⟨kept.methods.subset caller, ⟨i, call, Table.get?_of_prefix kept.callSites point, site⟩,
    Table.get?_of_prefix kept.methods callee⟩

theorem Kept.calls {x y : CsMethod} (calls : s.Calls x y) : s'.Calls x y := by
  obtain ⟨e, listed, links⟩ := calls
  exact ⟨e, kept.callEdges.subset listed, kept.links links⟩

theorem Kept.enters {x : CsMethod} (enters : s.Enters x) : s'.Enters x := by
  obtain ⟨m, listed, known⟩ := enters
  exact ⟨m, kept.entries.subset listed, Table.get?_of_prefix kept.methods known⟩

theorem Kept.connected {y : CsMethod} (connected : s.Connected y) : s'.Connected y := by
  obtain ⟨x, enters, path⟩ := connected
  exact ⟨x, kept.enters enters,
    Relation.ReflTransGen.mono (fun _ _ => kept.calls) _ _ path⟩

/-- A state that makes no methods under contexts and no calls stays whole. -/
theorem Whole.grow (whole : s.Whole waiting) (methods : s'.elements.methods = s.elements.methods)
    (edges : s'.callGraph.edges = s.callGraph.edges)
    (pointers : ∀ k ∈ s'.elements.pointers.toList, k ∈ s.elements.pointers.toList ∨ s.Housed k)
    (visited : ∀ m ∈ waiting, m ∈ s'.callGraph.reachable.toList ∨ m ∈ waiting') :
    s'.Whole waiting' where
  housed k mem := kept.housed ((pointers k mem).elim (whole.housed k) id)
  linked e listed := by
    rw [edges] at listed
    obtain ⟨x, y, links⟩ := whole.linked e listed
    exact ⟨x, y, kept.links links⟩
  visited m x known := by
    rw [methods] at known
    rcases whole.visited m x known with old | waits
    · exact Or.inl (kept.reachable.subset old)
    · exact visited m waits
  connected y known := by
    rw [methods] at known
    exact kept.connected (whole.connected y known)

/-- A method under a context that is entered or called may be new; it waits to be visited. -/
theorem Whole.of_intern (whole : s.Whole waiting) {y : CsMethod}
    (methods : s'.elements.methods = (s.elements.methods.intern y).2)
    (pointers : ∀ k ∈ s'.elements.pointers.toList, k ∈ s.elements.pointers.toList ∨ s'.Housed k)
    (edges : ∀ e ∈ s'.callGraph.edges.toList,
      e ∈ s.callGraph.edges.toList ∨ ∃ x y, s'.Links e x y)
    (connected : s'.Connected y) : s'.Whole (⟨(s.elements.methods.intern y).1⟩ :: waiting) where
  housed k mem := (pointers k mem).elim (fun old => kept.housed (whole.housed k old)) id
  linked e listed := by
    rcases edges e listed with old | new
    · obtain ⟨x, z, links⟩ := whole.linked e old
      exact ⟨x, z, kept.links links⟩
    · exact new
  visited m x known := by
    rw [methods] at known
    rcases Table.mem_toList_intern.1 (Table.mem_toList_of_get? known) with old | rfl
    · obtain ⟨i, before⟩ := Table.mem_toList_iff_get?.1 old
      have same := Table.get?_injective known (Table.get?_intern_of_get? before)
      subst same
      rcases whole.visited m x before with reached | waits
      · exact Or.inl (kept.reachable.subset reached)
      · exact Or.inr (List.mem_cons_of_mem _ waits)
    · have position := Table.get?_injective known (Table.get?_intern s.elements.methods x)
      exact Or.inr (List.mem_cons.2 (Or.inl (Id.ext_index position)))
  connected z known := by
    rw [methods] at known
    rcases Table.mem_toList_intern.1 known with old | rfl
    · exact kept.connected (whole.connected z old)
    · exact connected

end Kept

/-- A call by a known method makes its callee known and adds an edge. If the edge is there already,
the callee was known. -/
theorem Whole.link (whole : s.Whole waiting) (kept : s.Kept s')
    {e : CallEdge .csCallSite .csMethod} {x y : CsMethod} (caller : x ∈ s.elements.methods.toList)
    (links : s'.Links e x y) (methods : s'.elements.methods = (s.elements.methods.intern y).2)
    (callGraph : s'.callGraph = (s.callGraph.addEdge e).2)
    (pointers : ∀ k ∈ s'.elements.pointers.toList,
      k ∈ s.elements.pointers.toList ∨ s'.Housed k) :
    s'.Whole (if (s.callGraph.addEdge e).1 then e.callee :: waiting else waiting) := by
  have listed : e ∈ s'.callGraph.edges.toList := by
    rw [callGraph]
    exact CallGraph.mem_edges_addEdge.2 (Or.inr rfl)
  have connected : s'.Connected y := by
    obtain ⟨z, enters, path⟩ := kept.connected (whole.connected x caller)
    exact ⟨z, enters, path.tail ⟨e, listed, links⟩⟩
  have edges : ∀ e' ∈ s'.callGraph.edges.toList, e' ∈ s.callGraph.edges.toList ∨
      ∃ x y, s'.Links e' x y := by
    intro e' mem
    rw [callGraph] at mem
    refine (CallGraph.mem_edges_addEdge.1 mem).imp_right ?_
    rintro rfl
    exact ⟨x, y, links⟩
  have added := whole.of_intern kept methods pointers edges connected
  have position : (⟨(s.elements.methods.intern y).1⟩ : CsMethodId) = e.callee := by
    have found := links.callee
    rw [methods] at found
    exact Id.ext_index (Table.get?_injective (Table.get?_intern s.elements.methods y) found)
  rw [position] at added
  split
  · exact added
  · rename_i old
    -- the callee of a known edge is reachable or waits already
    have known := CallGraph.mem_edges_of_addEdge_eq_false (Bool.not_eq_true _ ▸ old)
    obtain ⟨x', z, before⟩ := whole.linked e known
    refine { added with visited := fun m y' found => ?_ }
    rcases added.visited m y' found with reached | waits
    · exact Or.inl reached
    · rcases List.mem_cons.1 waits with rfl | waits
      · exact (whole.visited _ z before.callee).imp_left fun reached => kept.reachable.subset reached
      · exact Or.inr waits

theorem Whole.quiet (whole : s.Whole waiting) (quiet : Quiet s.Housed s s') : s'.Whole waiting := by
  refine whole.grow quiet.kept quiet.methods ?_ quiet.pointers fun _ => Or.inr
  rw [quiet.callGraph]

/-- A state and what an operation makes of it, which has grown and is whole. -/
structure Extends (waiting : List CsMethodId) (s s' : SolverState P) : Prop where
  kept : s.Kept s'
  whole : s'.Whole waiting

theorem Extends.trans (first : s.Extends waiting s') (second : s'.Extends waiting' s'') :
    Extends waiting' s s'' :=
  ⟨first.kept.trans second.kept, second.whole⟩

theorem Whole.extends (whole : s.Whole waiting) (quiet : Quiet s.Housed s s') :
    s.Extends waiting s' :=
  ⟨quiet.kept, whole.quiet quiet⟩

/-! ## Parts that single changes keep -/

theorem initialized_of_change (change : Change s s') (started : s.initialized = true) :
    s'.initialized = true := by
  cases change with
  | initialized => rfl
  | propagate objects found =>
    unfold propagated
    split <;> exact started
  | deliver head found =>
    unfold delivered propagated
    split <;> exact started
  | _ => exact started

/-- An analysis that has started stays so. -/
theorem initialized_of_changes (changes : Changes s s') (started : s.initialized = true) :
    s'.initialized = true :=
  changes.invariant (fun _ _ => initialized_of_change) started

theorem located_of_change (change : Change s s') (located : s.callGraph.Located) :
    s'.callGraph.Located := by
  cases change with
  | callEdge e => exact located.addEdge e
  | reachable sites new => exact located.addReachable sites new
  | entry m => exact ⟨located.listed, located.located⟩
  | propagate objects found =>
    unfold propagated
    split <;> exact located
  | deliver head found =>
    unfold delivered propagated
    split <;> exact located
  | _ => exact located

/-- Call sites keep their containers. -/
theorem located_of_changes (changes : Changes s s') (located : s.callGraph.Located) :
    s'.callGraph.Located :=
  changes.invariant (fun _ _ => located_of_change) located

end SolverState

end PointsTo
