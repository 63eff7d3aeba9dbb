import PointsTo.Proofs.Solver.Growth

/-!
# No object is lost on the way

Whatever has reached the source of a flow edge has reached its target or is on its way there. This
holds after any changes, so nothing is missing once the worklist is empty.
-/

namespace PointsTo

variable {P : Problem}

namespace SolverState

/-- Flow edges have sent everything that their sources have. -/
structure Delivering (s : SolverState P) : Prop where
  indexed : s.flow.Indexed
  sent {e : FlowEdge} {o : CsObjId} : e ∈ s.flow.edges.toList → s.Contains e.source o →
    s.Sent e.target o

variable {s s' : SolverState P}

theorem delivering_initial : (initial P).Delivering where
  indexed := FlowGraph.indexed_empty
  sent known := by simp [initial, FlowGraph.empty, Table.toList_empty] at known

/-- A change that touches neither the flow graph nor the contents of points-to sets. -/
theorem Delivering.of_kept (before : s.Delivering) (kept : s.Kept s') (flow : s'.flow = s.flow)
    (contains : ∀ {p o}, s'.Contains p o → s.Contains p o) : s'.Delivering where
  indexed := flow ▸ before.indexed
  sent known here := kept.sent (before.sent (flow ▸ known) (contains here))

theorem sent_propagated {p : PointerId} {known objects : ObjectSet} (indexed : s.flow.Indexed)
    (found : s.elements.pointsToSet p = .ok known)
    (sent : ∀ e ∈ s.flow.edges.toList, ∀ o, s.Contains e.source o →
      (s.propagated p known objects).Sent e.target o)
    {e : FlowEdge} {o : CsObjId} (edge : e ∈ s.flow.edges.toList)
    (here : (s.propagated p known objects).Contains e.source o) :
    (s.propagated p known objects).Sent e.target o := by
  by_cases old : s.Contains e.source o
  · exact sent e edge o old
  · obtain ⟨source, mem⟩ := ((contains_propagated found).1 here).resolve_left old
    -- an object that is new to the source is scheduled for all targets
    have new : o ∈ known.fresh objects := by
      refine IdSet.mem_fresh.2 ⟨mem, fun listed => old ?_⟩
      rw [source]
      exact ⟨known, ElementStore.pointsToSet_eq_ok_iff.1 found, listed⟩
    have target : e.target ∈ s.flow.targetsOf p := by
      rw [indexed.mem_targetsOf, ← source]
      exact edge
    exact Or.inr (awaits_propagated.2 (Or.inr ⟨target, new⟩))

theorem flow_propagated (s : SolverState P) (p : PointerId) (known objects : ObjectSet) :
    (s.propagated p known objects).flow = s.flow := by
  unfold propagated
  split <;> rfl

theorem Delivering.propagated {p : PointerId} {known : ObjectSet} (before : s.Delivering)
    (objects : ObjectSet) (found : s.elements.pointsToSet p = .ok known) :
    (s.propagated p known objects).Delivering where
  indexed := by
    rw [flow_propagated]
    exact before.indexed
  sent known' here := by
    rw [flow_propagated] at known'
    exact sent_propagated before.indexed found
      (fun e edge o old => (kept_propagated p objects found).sent (before.sent edge old)) known' here

theorem Delivering.delivered {e : Pending} {rest : Worklist} {known : ObjectSet}
    (before : s.Delivering) (head : s.worklist.poll = some (e, rest))
    (found : s.elements.pointsToSet e.target = .ok known) :
    (s.delivered e rest known).Delivering where
  indexed := by
    rw [SolverState.delivered, flow_propagated]
    exact before.indexed
  sent known' here := by
    rw [SolverState.delivered, flow_propagated] at known'
    have found' : (s.taken rest).elements.pointsToSet e.target = .ok known := found
    have kept : ∀ e' ∈ s.flow.edges.toList, ∀ o, s.Contains e'.source o →
        ((s.taken rest).propagated e.target known e.objects).Sent e'.target o :=
      fun e' edge o old => (kept_delivered head found).sent (before.sent edge old)
    exact sent_propagated (s := s.taken rest) before.indexed found' kept known' here

/-- A new edge sends what its source has. -/
theorem Delivering.flow {e : FlowEdge} {objects : ObjectSet} (before : s.Delivering)
    (new : s.flow.hasEdge e = false) (found : s.elements.pointsToSet e.source = .ok objects) :
    SolverState.Delivering { s with
      flow := (s.flow.addEdge e).2
      worklist := if objects.isEmpty then s.worklist else s.worklist.add ⟨e.target, objects⟩ } where
  indexed := before.indexed.addEdge new
  sent {e' o} known here := by
    rcases FlowGraph.mem_edges_addEdge.1 known with old | rfl
    · exact (kept_of_change (.flow new found)).sent (before.sent old here)
    · obtain ⟨set, present, mem⟩ := here
      have same := ElementStore.pointsToSet_eq_ok_iff.1 found
      rw [present] at same
      obtain rfl := Option.some.inj same
      refine Or.inr ⟨⟨e'.target, set⟩, ?_, rfl, mem⟩
      by_cases none : set.isEmpty
      · exact absurd mem (IdSet.not_mem_of_isEmpty none)
      · simp [none]

/-- Changes lose no object. -/
theorem delivering_of_change (change : Change s s') (before : s.Delivering) : s'.Delivering := by
  have kept := kept_of_change change
  cases change with
  | pointer k => exact before.of_kept kept rfl ElementStore.contains_pointer.1
  | flow new found => exact before.flow new found
  | propagate objects found => exact before.propagated objects found
  | deliver head found => exact before.delivered head found
  | csObj => exact before.of_kept kept rfl id
  | csMethod => exact before.of_kept kept rfl id
  | csCallSite => exact before.of_kept kept rfl id
  | contexts => exact before.of_kept kept rfl id
  | heap => exact before.of_kept kept rfl id
  | schedule => exact before.of_kept kept rfl id
  | callEdge => exact before.of_kept kept rfl id
  | reachable => exact before.of_kept kept rfl id
  | entry => exact before.of_kept kept rfl id
  | unresolved => exact before.of_kept kept rfl id
  | initialized => exact before.of_kept kept rfl id
  | recorded => exact before.of_kept kept rfl id

theorem delivering_of_changes (changes : Changes s s') (before : s.Delivering) : s'.Delivering :=
  changes.invariant (fun _ _ => delivering_of_change) before

end SolverState

end PointsTo
