import PointsTo.Proofs.CallGraph
import PointsTo.Proofs.Element
import PointsTo.Proofs.Solver.Change
import PointsTo.Proofs.Solver.FlowGraph

/-!
# Growth of states

No change removes anything: tables keep their entries at their positions, points-to sets keep their
objects, and an object that is on its way to a location stays there until it has arrived.
-/

namespace PointsTo

variable {P : Problem}

namespace SolverState

variable (s : SolverState P)

/-- A location has an object in its set. -/
def Contains (p : PointerId) (o : CsObjId) : Prop :=
  s.elements.Contains p o

/-- An object is on the worklist for a location. -/
def Awaits (p : PointerId) (o : CsObjId) : Prop :=
  ∃ e ∈ s.worklist.toList, e.target = p ∧ o ∈ e.objects

/-- An object has reached a location or is on its way to it. -/
def Sent (p : PointerId) (o : CsObjId) : Prop :=
  s.Contains p o ∨ s.Awaits p o

/-- Everything but the contexts and the heap has grown. -/
structure Kept (s s' : SolverState P) : Prop where
  pointers : s.elements.pointers.toList <+: s'.elements.pointers.toList
  csObjects : s.elements.objects.toList <+: s'.elements.objects.toList
  methods : s.elements.methods.toList <+: s'.elements.methods.toList
  callSites : s.elements.callSites.toList <+: s'.elements.callSites.toList
  contains {p : PointerId} {o : CsObjId} : s.Contains p o → s'.Contains p o
  sent {p : PointerId} {o : CsObjId} : s.Sent p o → s'.Sent p o
  flow : s.flow.edges.toList <+: s'.flow.edges.toList
  reachable : s.callGraph.reachable.toList <+: s'.callGraph.reachable.toList
  callEdges : s.callGraph.edges.toList <+: s'.callGraph.edges.toList
  entries : s.callGraph.entries.toList <+: s'.callGraph.entries.toList

variable {s} {s' s'' : SolverState P}

theorem Kept.refl (s : SolverState P) : s.Kept s :=
  ⟨List.prefix_rfl, List.prefix_rfl, List.prefix_rfl, List.prefix_rfl, id, id, List.prefix_rfl,
    List.prefix_rfl, List.prefix_rfl, List.prefix_rfl⟩

theorem Kept.trans (first : s.Kept s') (second : s'.Kept s'') : s.Kept s'' where
  pointers := first.pointers.trans second.pointers
  csObjects := first.csObjects.trans second.csObjects
  methods := first.methods.trans second.methods
  callSites := first.callSites.trans second.callSites
  contains known := second.contains (first.contains known)
  sent known := second.sent (first.sent known)
  flow := first.flow.trans second.flow
  reachable := first.reachable.trans second.reachable
  callEdges := first.callEdges.trans second.callEdges
  entries := first.entries.trans second.entries

/-! ## Deliveries -/

theorem toList_foldl_add (w : Worklist) (targets : List PointerId) (objects : ObjectSet) :
    (targets.foldl (fun w t => w.add ⟨t, objects⟩) w).toList =
      w.toList ++ targets.map fun t => ⟨t, objects⟩ := by
  induction targets generalizing w with
  | nil => simp
  | cons t targets ih =>
    rw [List.foldl_cons, ih, Worklist.toList_add, List.map_cons, List.append_assoc,
      List.singleton_append]

/-- An object that is scheduled is awaited, and no other object is. -/
theorem awaits_schedule {e : Pending} {p : PointerId} {o : CsObjId} :
    SolverState.Awaits { s with worklist := s.worklist.add e } p o ↔
      s.Awaits p o ∨ e.target = p ∧ o ∈ e.objects := by
  simp only [Awaits, Worklist.toList_add, List.mem_append, List.mem_singleton]
  constructor
  · rintro ⟨entry, old | rfl, rest⟩
    · exact Or.inl ⟨entry, old, rest⟩
    · exact Or.inr rest
  · rintro (⟨entry, old, rest⟩ | rest)
    · exact ⟨entry, Or.inl old, rest⟩
    · exact ⟨e, Or.inr rfl, rest⟩

/-- A propagation adds the given objects to one set. -/
theorem contains_propagated {p p' : PointerId} {known objects : ObjectSet} {o : CsObjId}
    (found : s.elements.pointsToSet p = .ok known) :
    (s.propagated p known objects).Contains p' o ↔ s.Contains p' o ∨ p' = p ∧ o ∈ objects := by
  by_cases none : (known.fresh objects).isEmpty
  · rw [propagated, if_pos none]
    constructor
    · exact Or.inl
    · rintro (old | ⟨rfl, mem⟩)
      · exact old
      · exact ⟨known, ElementStore.pointsToSet_eq_ok_iff.1 found,
          IdSet.union_eq_of_fresh_isEmpty none mem⟩
  · rw [propagated, if_neg none]
    exact ElementStore.contains_setPointsTo found

/-- A propagation schedules the objects that are new to a location for the targets of its edges. -/
theorem awaits_propagated {p p' : PointerId} {known objects : ObjectSet} {o : CsObjId} :
    (s.propagated p known objects).Awaits p' o ↔
      s.Awaits p' o ∨ p' ∈ s.flow.targetsOf p ∧ o ∈ known.fresh objects := by
  by_cases none : (known.fresh objects).isEmpty
  · rw [propagated, if_pos none]
    constructor
    · exact Or.inl
    · rintro (old | ⟨-, mem⟩)
      · exact old
      · exact absurd mem (IdSet.not_mem_of_isEmpty none)
  · rw [propagated, if_neg none]
    simp only [Awaits, toList_foldl_add, List.mem_append, List.mem_map]
    constructor
    · rintro ⟨e, old | ⟨t, listed, rfl⟩, rfl, mem⟩
      · exact Or.inl ⟨e, old, rfl, mem⟩
      · exact Or.inr ⟨listed, mem⟩
    · rintro (⟨e, old, rest⟩ | ⟨listed, mem⟩)
      · exact ⟨e, Or.inl old, rest⟩
      · exact ⟨⟨p', known.fresh objects⟩, Or.inr ⟨p', listed, rfl⟩, rfl, mem⟩

/-- What was awaited before the head of the worklist was taken off is awaited still, or comes with
the head. -/
theorem awaits_of_poll {e : Pending} {rest : Worklist} (head : s.worklist.poll = some (e, rest))
    {p : PointerId} {o : CsObjId} :
    s.Awaits p o ↔ e.target = p ∧ o ∈ e.objects ∨ (s.taken rest).Awaits p o := by
  simp only [Awaits, Worklist.toList_eq_cons_of_poll head, List.mem_cons]
  constructor
  · rintro ⟨entry, rfl | old, holds⟩
    · exact Or.inl holds
    · exact Or.inr ⟨entry, old, holds⟩
  · rintro (holds | ⟨entry, old, holds⟩)
    · exact ⟨e, Or.inl rfl, holds⟩
    · exact ⟨entry, Or.inr old, holds⟩

theorem kept_propagated (p : PointerId) {known : ObjectSet} (objects : ObjectSet)
    (found : s.elements.pointsToSet p = .ok known) : s.Kept (s.propagated p known objects) := by
  have contains : ∀ {p' : PointerId} {o : CsObjId}, s.Contains p' o →
      (s.propagated p known objects).Contains p' o :=
    fun old => (contains_propagated found).2 (Or.inl old)
  have sent : ∀ {p' : PointerId} {o : CsObjId}, s.Sent p' o →
      (s.propagated p known objects).Sent p' o := by
    rintro p' o (old | old)
    · exact Or.inl (contains old)
    · exact Or.inr (awaits_propagated.2 (Or.inl old))
  unfold propagated at contains sent ⊢
  split at contains
  · rename_i none
    rw [if_pos none]
    exact .refl s
  · rename_i some
    rw [if_neg some] at sent ⊢
    exact ⟨List.prefix_rfl, List.prefix_rfl, List.prefix_rfl, List.prefix_rfl, contains, sent,
      List.prefix_rfl, List.prefix_rfl, List.prefix_rfl, List.prefix_rfl⟩

/-- A delivery keeps what was awaited: it arrives, or is awaited still. -/
theorem kept_delivered {e : Pending} {rest : Worklist} {known : ObjectSet}
    (head : s.worklist.poll = some (e, rest))
    (found : s.elements.pointsToSet e.target = .ok known) : s.Kept (s.delivered e rest known) := by
  have found' : (s.taken rest).elements.pointsToSet e.target = .ok known := found
  have kept := kept_propagated e.target e.objects found'
  refine { kept with sent := ?_ }
  rintro p o (old | old)
  · exact Or.inl (kept.contains old)
  · rcases (awaits_of_poll head).1 old with ⟨rfl, mem⟩ | old
    · exact Or.inl ((contains_propagated found').2 (Or.inr ⟨rfl, mem⟩))
    · exact kept.sent (Or.inr old)

/-! ## Changes -/

theorem kept_elements {elements : ElementStore}
    (pointers : s.elements.pointers.toList <+: elements.pointers.toList)
    (objects : s.elements.objects.toList <+: elements.objects.toList)
    (methods : s.elements.methods.toList <+: elements.methods.toList)
    (callSites : s.elements.callSites.toList <+: elements.callSites.toList)
    (contains : ∀ {p : PointerId} {o : CsObjId}, s.elements.Contains p o → elements.Contains p o) :
    s.Kept { s with elements := elements } where
  pointers := pointers
  csObjects := objects
  methods := methods
  callSites := callSites
  contains := contains
  sent := by
    rintro p o (old | old)
    · exact Or.inl (contains old)
    · exact Or.inr old
  flow := List.prefix_rfl
  reachable := List.prefix_rfl
  callEdges := List.prefix_rfl
  entries := List.prefix_rfl

theorem kept_callGraph {g : CsCallGraph}
    (reachable : s.callGraph.reachable.toList <+: g.reachable.toList)
    (edges : s.callGraph.edges.toList <+: g.edges.toList)
    (entries : s.callGraph.entries.toList <+: g.entries.toList) :
    s.Kept { s with callGraph := g } :=
  { Kept.refl s with reachable := reachable, callEdges := edges, entries := entries }

theorem kept_schedule (e : Pending) : s.Kept { s with worklist := s.worklist.add e } := by
  refine { Kept.refl s with sent := ?_ }
  rintro p o (old | old)
  · exact Or.inl old
  · exact Or.inr (awaits_schedule.2 (Or.inl old))

theorem kept_flow (e : FlowEdge) : s.Kept { s with flow := (s.flow.addEdge e).2 } :=
  { Kept.refl s with flow := FlowGraph.prefix_addEdge s.flow e }

/-- A single change removes nothing. -/
theorem kept_of_change (change : Change s s') : s.Kept s' := by
  cases change with
  | pointer k =>
    refine kept_elements ?_ ?_ ?_ ?_ ElementStore.contains_pointer.2
    · rw [ElementStore.pointers_pointer]
      exact Table.prefix_intern s.elements.pointers k
    · apply Table.prefix_of_eq
      rw [ElementStore.objects_pointer]
    · apply Table.prefix_of_eq
      rw [ElementStore.methods_pointer]
    · apply Table.prefix_of_eq
      rw [ElementStore.callSites_pointer]
  | csObj o =>
    exact kept_elements List.prefix_rfl (Table.prefix_intern _ o) List.prefix_rfl List.prefix_rfl id
  | csMethod m =>
    exact kept_elements List.prefix_rfl List.prefix_rfl (Table.prefix_intern _ m) List.prefix_rfl id
  | csCallSite i =>
    exact kept_elements List.prefix_rfl List.prefix_rfl List.prefix_rfl (Table.prefix_intern _ i) id
  | contexts => exact { Kept.refl s with }
  | heap => exact { Kept.refl s with }
  | schedule e => exact kept_schedule e
  | @flow e objects new found =>
    have graph := kept_flow (s := s) e
    by_cases none : objects.isEmpty
    · rw [if_pos none]
      exact graph
    · rw [if_neg none]
      exact graph.trans (kept_schedule ⟨e.target, objects⟩)
  | callEdge e =>
    refine kept_callGraph ?_ (CallGraph.prefix_edges_addEdge s.callGraph e) ?_
    · apply Table.prefix_of_eq
      rw [CallGraph.reachable_addEdge]
    · apply Table.prefix_of_eq
      rw [CallGraph.entries_addEdge]
  | @reachable m sites new =>
    refine kept_callGraph ?_ ?_ ?_
    · rw [CallGraph.reachable_addReachable sites new]
      exact Table.prefix_intern s.callGraph.reachable m
    · apply Table.prefix_of_eq
      rw [CallGraph.edges_addReachable]
    · apply Table.prefix_of_eq
      rw [CallGraph.entries_addReachable]
  | entry m =>
    exact kept_callGraph List.prefix_rfl List.prefix_rfl (Table.prefix_intern s.callGraph.entries m)
  | propagate objects found => exact kept_propagated _ objects found
  | deliver head found => exact kept_delivered head found
  | unresolved => exact { Kept.refl s with }
  | initialized => exact { Kept.refl s with }
  | recorded => exact { Kept.refl s with }

theorem kept_of_changes (changes : Changes s s') : s.Kept s' := by
  induction changes with
  | refl => exact .refl s
  | tail _ change ih => exact ih.trans (kept_of_change change)

end SolverState

end PointsTo
