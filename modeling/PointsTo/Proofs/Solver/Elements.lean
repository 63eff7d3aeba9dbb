import PointsTo.Proofs.Solver.Progress

/-!
# Elements, contexts and flow edges

The operations that the rules of the analysis are put together from. None of them adds a fact; each
gives an identifier with a known reading, or a connection between two places.
-/

namespace PointsTo

open Inclusion

variable {P : Problem} {q : Policy}

namespace Solve

open SolverState (Adds kept_of_change)

variable {s : SolverState P}

/-! ## Elements -/

/-- A state has grown by new elements only. -/
theorem grows_of_change {s s' : SolverState P} (change : Change s s')
    (contexts : s'.contexts = s.contexts) (heap : s'.heap = s.heap) : s.Grows s' := by
  refine ⟨kept_of_change change, ?_, ?_⟩
  · apply Table.prefix_of_eq
    rw [contexts]
  · have same : s'.objects = s.objects := congrArg P.heapModel.objects heap
    exact same ▸ List.prefix_rfl

theorem pointer_meets (grounded : s.Grounded q) {k : PointerKey} {l : Location}
    (read : s.location? k = some l) (met : Met P.hierarchy q l) :
    Meets q s (pointer k) settled fun p s' => s'.locationAt? p = some l := by
  have grow := grows_of_change (.pointer s k) rfl rfl
  refine .quiet (pointer_run s k) grounded grow ?_ rfl ElementStore.contains_pointer.1 ?_
  · refine .of_parts grounded rfl rfl ⟨?_, ?_, ?_, ?_⟩ (.of_eq ?_ rfl rfl) (.of_eq rfl)
    · rw [ElementStore.objects_pointer]
      exact fun _ => Or.inl
    · rw [ElementStore.methods_pointer]
      exact fun _ => Or.inl
    · rw [ElementStore.callSites_pointer]
      exact fun _ => Or.inl
    · intro k' mem
      rw [ElementStore.pointers_pointer] at mem
      rcases Table.mem_toList_intern.1 mem with old | rfl
      · exact Or.inl old
      · exact Or.inr ⟨l, grow.location? read, met⟩
    · exact fun p x => Or.imp_left ElementStore.contains_pointer.1
  · exact SolverState.locationAt?_eq_some_iff.2
      ⟨k, ElementStore.get?_pointer s.elements k, grow.location? read⟩

theorem csObj_meets (grounded : s.Grounded q) {c : ContextId} {t : Trail} {o : ObjId} {obj : Obj}
    (trail : s.trail? c = some t) (found : s.objects[o.index]? = some obj)
    (made : Made P.hierarchy q ⟨t, obj.site⟩) :
    Meets q s (csObj c o) settled fun x s' => s'.heapObj? x = some ⟨t, obj.site⟩ := by
  have grow := grows_of_change (.csObj s ⟨c, o⟩) rfl rfl
  refine .quiet (csObj_run s c o) grounded grow ?_ rfl id ?_
  · refine .of_parts grounded rfl rfl ⟨?_, fun _ => Or.inl, fun _ => Or.inl, fun _ => Or.inl⟩
      (.of_eq (fun _ _ => id) rfl rfl) (.of_eq rfl)
    intro x mem
    rcases Table.mem_toList_intern.1 mem with old | rfl
    · exact Or.inl old
    · exact Or.inr ⟨t, obj, grow.trail? trail, found, made⟩
  · exact SolverState.heapObj?_eq_some_iff.2
      ⟨⟨c, o⟩, obj, Table.get?_intern s.elements.objects ⟨c, o⟩, found, grow.trail? trail, rfl⟩

theorem csMethod_meets (grounded : s.Grounded q) {c : ContextId} {t : Trail} {m : MethodId}
    (trail : s.trail? c = some t) (derived : P.Derives q (.reachable ⟨t, m⟩)) :
    Meets q s (csMethod c m) settled fun i s' => s'.activation? i = some ⟨t, m⟩ := by
  have grow := grows_of_change (.csMethod s ⟨c, m⟩) rfl rfl
  refine .quiet (csMethod_run s c m) grounded grow ?_ rfl id ?_
  · refine .of_parts grounded rfl rfl ⟨fun _ => Or.inl, ?_, fun _ => Or.inl, fun _ => Or.inl⟩
      (.of_eq (fun _ _ => id) rfl rfl) (.of_eq rfl)
    intro x mem
    rcases Table.mem_toList_intern.1 mem with old | rfl
    · exact Or.inl old
    · exact Or.inr ⟨t, grow.trail? trail, derived⟩
  · exact SolverState.activation?_eq_some_iff.2
      ⟨c, Table.get?_intern s.elements.methods ⟨c, m⟩, grow.trail? trail⟩

theorem csCallSite_meets (grounded : s.Grounded q) {c : ContextId} {t : Trail} {i : InvokeId}
    (trail : s.trail? c = some t) (inside : i.index < P.program.invokes.size) :
    Meets q s (csCallSite c i) settled fun j s' => s'.callPoint? j = some ⟨t, i⟩ := by
  have grow := grows_of_change (.csCallSite s ⟨c, i⟩) rfl rfl
  refine .quiet (csCallSite_run s c i) grounded grow ?_ rfl id ?_
  · refine .of_parts grounded rfl rfl ⟨fun _ => Or.inl, fun _ => Or.inl, ?_, fun _ => Or.inl⟩
      (.of_eq (fun _ _ => id) rfl rfl) (.of_eq rfl)
    intro x mem
    rcases Table.mem_toList_intern.1 mem with old | rfl
    · exact Or.inl old
    · exact Or.inr ⟨⟨t, grow.trail? trail⟩, inside⟩
  · exact SolverState.callPoint?_eq_some_iff.2
      ⟨c, Table.get?_intern s.elements.callSites ⟨c, i⟩, grow.trail? trail⟩

theorem countUnresolved_meets (grounded : s.Grounded q) :
    Meets q s (countUnresolved : Solve P Unit) settled fun _ _ => True :=
  .quiet (countUnresolved_run s) grounded (grows_of_change (.unresolved s) rfl rfl)
    (.of_same grounded rfl rfl rfl rfl rfl rfl) rfl id trivial

/-! ## Contexts -/

/-- A selector that picks a context of known elements. -/
theorem select_meets (grounded : s.Grounded q) {choose : ContextTable → Selection} {ctx : Context}
    {t : Trail} (selects : Selects s.contexts (choose s.contexts) ctx)
    (short : ctx.length ≤ q.strategy.depth) (names : ∀ e ∈ ctx, s.Names e)
    (marks : ctx.map s.mark? = t.map some) (used : Used P.hierarchy q t) :
    Meets q s (select choose) settled fun c s' => s'.trail? c = some t := by
  obtain ⟨c, table, chosen, present, grows, only⟩ := selects
  have run : (select choose : Solve P _) s = .ok c { s with contexts := table } := by
    rw [select_run, chosen]
  have grow : s.Grows { s with contexts := table } :=
    ⟨kept_of_change (.contexts s table), grows, List.prefix_rfl⟩
  refine .quiet run grounded grow ?_ rfl id ?_
  · refine ⟨grounded.heap, fun _ => Or.inl, ?_, .of_eq rfl rfl rfl rfl,
      .of_eq (fun _ _ => id) rfl rfl, .of_eq rfl⟩
    intro ctx' mem
    rcases only ctx' mem with old | rfl
    · exact Or.inl old
    · exact Or.inr ⟨short, names, t, marks, used⟩
  · exact SolverState.trail?_eq_some_iff.2 ⟨ctx, present, marks⟩

section Contexts

variable (lawful : P.Lawful q) (grounded : s.Grounded q)
include lawful grounded

theorem callContext_meets {c : ContextId} {t : Trail} {i : InvokeId} {callee : MethodId}
    (trail : s.trail? c = some t) (inside : i.index < P.program.invokes.size)
    (runs : P.Derives q (.reachable ⟨q.callTrail t i, callee⟩)) :
    Meets q s (select fun table => P.selector.callContext table ⟨c, i⟩ callee) settled
      fun c' s' => s'.trail? c' = some (q.callTrail t i) := by
  obtain ⟨ctx, known, marks⟩ := SolverState.trail?_eq_some_iff.1 trail
  obtain ⟨short, names, -⟩ := grounded.contexts ctx (Table.mem_toList_of_get? known)
  have site : s.contexts.table.get? (CsCallSite.mk c i).context.index = some ctx := known
  have selects := lawful.selector.call callee site
  refine select_meets grounded selects (q.length_onCall_le short) ?_ ?_ (.runs runs)
  · intro e mem
    rcases Policy.mem_of_mem_onCall mem with rfl | old
    · exact inside
    · exact names e old
  · rw [Policy.map_onCall, marks, Policy.callTrail, Policy.map_onCall]
    rfl

/-- The context of a call on an object, which is given with its heap context and its allocation. -/
theorem receiverContext_meets {c : ContextId} {t : Trail} {i : InvokeId} {callee : MethodId}
    {recv : CsObj} {obj : Obj} {o : HeapObj} (trail : s.trail? c = some t)
    (inside : i.index < P.program.invokes.size) (trail' : s.trail? recv.context = some o.trail)
    (found : s.objects[recv.obj.index]? = some obj) (site : obj.site = o.site)
    (runs : P.Derives q (.reachable ⟨q.receiverTrail t i o ⟨obj.ty, obj.containerClass⟩, callee⟩)) :
    Meets q s (select fun table => P.selector.receiverContext table ⟨c, i⟩ recv obj callee) settled
      fun c' s' => s'.trail? c' = some (q.receiverTrail t i o ⟨obj.ty, obj.containerClass⟩) := by
  obtain ⟨ctx, known, marks⟩ := SolverState.trail?_eq_some_iff.1 trail
  obtain ⟨heap, known', marks'⟩ := SolverState.trail?_eq_some_iff.1 trail'
  obtain ⟨-, names, -⟩ := grounded.contexts ctx (Table.mem_toList_of_get? known)
  obtain ⟨-, names', -⟩ := grounded.contexts heap (Table.mem_toList_of_get? known')
  have point : s.contexts.table.get? (CsCallSite.mk c i).context.index = some ctx := known
  have selects := lawful.selector.receiver obj callee point known'
  refine select_meets grounded selects q.length_onReceiver_le ?_ ?_ (.runs runs)
  · intro e mem
    rcases Policy.mem_of_mem_onReceiver mem with rfl | rfl | rfl | old | old
    · exact inside
    · exact (Array.getElem?_eq_some_iff.1 found).1
    · -- the class of an allocating method is declared
      have allocates := (lawful.heap.allocated grounded.heap found).2
      obtain ⟨method, declared, owner⟩ := Heap.method_of_allocation? allocates
      have headed := lawful.program.methods obj.site.method method declared
      exact Nat.lt_of_le_of_lt (Nat.le_of_eq (by rw [owner])) headed.owner
    · exact names e old
    · exact names' e old
  · have object : s.mark? (.object recv.obj) = some (.object o.site) := by
      rw [SolverState.mark?, found, Option.map_some, site]
    rw [Policy.map_onReceiver, marks, marks', object, Policy.receiverTrail, Policy.map_onReceiver]
    rfl

theorem heapContext_meets {m : CsMethod} {t : Trail} {i : Nat} {lhs : VarId} {ty : Ty} (obj : Obj)
    (trail : s.trail? m.context = some t) (reached : P.Derives q (.reachable ⟨t, m.method⟩))
    (stands : P.program.stmt? m.method i = some (.new lhs ty)) :
    Meets q s (select fun table => P.selector.heapContext table m obj) settled
      fun c s' => s'.trail? c = some (q.heapTrail t) := by
  obtain ⟨ctx, known, marks⟩ := SolverState.trail?_eq_some_iff.1 trail
  obtain ⟨short, names, -⟩ := grounded.contexts ctx (Table.mem_toList_of_get? known)
  have selects := lawful.selector.heap (m := m) obj known
  refine select_meets grounded selects (q.length_onAlloc_le short) ?_ ?_ (.allocates reached stands)
  · exact fun e mem => names e (Policy.mem_of_mem_onAlloc mem)
  · rw [Policy.map_onAlloc, marks, Policy.heapTrail, Policy.map_onAlloc]

theorem objectOf_meets {site : AllocSite} {a : Allocation} {t : Trail}
    (allocates : P.program.allocation? site = some a)
    (reached : P.Derives q (.reachable ⟨t, site.method⟩)) :
    Meets q s (objectOf site a.ty) settled fun obj s' =>
      s'.objects[obj.id.index]? = some obj ∧ obj.site = site := by
  obtain ⟨o, heap, obj, made, grows, found, place, others⟩ :=
    lawful.heap.objectOf grounded.heap allocates
  have heaps := HeapModel.Reached.objectOf grounded.heap allocates made
  have lookup : P.heapModel.objectAt heap o = .ok obj := by
    rw [lawful.heap.objectAt]
    exact fetch_eq_ok_iff.2 found
  have run : (objectOf site a.ty : Solve P _) s = .ok obj { s with heap := heap } := by
    simp only [objectOf_run, made, lookup]
  have grow : s.Grows { s with heap := heap } :=
    ⟨kept_of_change (.heap s heap), List.prefix_rfl, grows⟩
  have allocations : ∀ other ∈ (SolverState.objects { s with heap := heap }).toList,
      other ∈ s.objects.toList ∨ SolverState.GroundedAllocation P q other := by
    intro other mem
    refine (others other mem).imp_right fun same => ⟨t, ?_⟩
    rw [same, place]
    exact reached
  refine .quiet run grounded grow ⟨heaps, allocations, fun _ => Or.inl, .of_eq rfl rfl rfl rfl,
    .of_eq (fun _ _ => id) rfl rfl, .of_eq rfl⟩ rfl id ⟨?_, place⟩
  rw [(lawful.heap.allocated heaps found).1]
  exact found

end Contexts

/-! ## The worklist and flow edges -/

theorem schedule_meets (grounded : s.Grounded q) {p : PointerId} {l : Location}
    {objects : ObjectSet} (read : s.locationAt? p = some l)
    (derived : ∀ x ∈ objects, s.GroundedObject q p x) :
    Meets q s (schedule p objects) settled fun _ s' => ∀ x ∈ objects, s'.Sent p x := by
  have grow := grows_of_change (.schedule s ⟨p, objects⟩) rfl rfl
  refine .quiet (schedule_run s p objects) grounded grow ?_ rfl id ?_
  · refine .of_parts grounded rfl rfl (.of_eq rfl rfl rfl rfl) ⟨?_, ?_, fun _ => Or.inl⟩
      (.of_eq rfl)
    · rintro p' x (arrived | pending)
      · exact Or.inl (Or.inl arrived)
      · rcases SolverState.awaits_schedule.1 pending with old | ⟨rfl, mem⟩
        · exact Or.inl (Or.inr old)
        · exact Or.inr (grow.groundedObject (derived x mem))
    · intro e mem
      rw [Worklist.toList_add, List.mem_append, List.mem_singleton] at mem
      rcases mem with old | rfl
      · exact Or.inl old
      · exact Or.inr ⟨l, grow.locationAt? read⟩
  · exact fun x mem => Or.inr (SolverState.awaits_schedule.2 (Or.inr ⟨rfl, mem⟩))

/-- An object is sent to the location of a key. -/
theorem deliver_meets (grounded : s.Grounded q) {k : PointerKey} {l : Location} {x : CsObjId}
    {o : HeapObj} (read : s.location? k = some l) (object : s.heapObj? x = some o)
    (held : P.Derives q (.pointsTo l o)) :
    Meets q s (do schedule (← pointer k) (.singleton x)) settled fun _ s' => s'.Sends l o := by
  refine (pointer_meets grounded read (.holds held)).bind fun p s₁ grounded₁ grow₁ at_ => ?_
  have each : ∀ x' ∈ IdSet.singleton x, s₁.GroundedObject q p x' := by
    intro x' mem
    rw [IdSet.mem_singleton.1 mem]
    exact ⟨l, o, at_, grow₁.heapObj? object, held⟩
  refine (schedule_meets grounded₁ at_ each).imp fun _ s₂ _ grow₂ sent => ?_
  exact ⟨p, x, grow₂.locationAt? at_, (grow₁.trans grow₂).heapObj? object,
    sent x (IdSet.mem_singleton.2 rfl)⟩

theorem addFlow_meets (grounded : s.Grounded q) {p p' : PointerId}
    (justified : s.GroundedFlow q ⟨p, p'⟩) :
    Meets q s (addFlow p p') settled fun _ s' => ⟨p, p'⟩ ∈ s'.flow.edges.toList := by
  have run := addFlow_run s p p'
  cases known : s.flow.hasEdge ⟨p, p'⟩ with
  | true =>
    rw [if_pos known] at run
    exact .of_ok run grounded (.refl _ s) (FlowGraph.hasEdge_iff.1 known)
  | false =>
    obtain ⟨l, l', source, target, connects⟩ := justified
    obtain ⟨objects, found⟩ := SolverState.exists_pointsToSet source
    rw [if_neg (by simp [known]), found] at run
    have grow := grows_of_change (.flow known found) rfl rfl
    refine .quiet run grounded grow ?_ rfl id (FlowGraph.mem_edges_addEdge.2 (Or.inr rfl))
    refine .of_parts grounded rfl rfl (.of_eq rfl rfl rfl rfl) ⟨?_, ?_, ?_⟩ (.of_eq rfl)
    · rintro p₁ x (arrived | ⟨e, pending, rfl, mem⟩)
      · exact Or.inl (Or.inl arrived)
      · by_cases none : objects.isEmpty
        · rw [if_pos none] at pending
          exact Or.inl (Or.inr ⟨e, pending, rfl, mem⟩)
        · rw [if_neg none, Worklist.toList_add, List.mem_append, List.mem_singleton] at pending
          rcases pending with old | rfl
          · exact Or.inl (Or.inr ⟨e, old, rfl, mem⟩)
          · have here : s.Contains p x := ⟨objects, ElementStore.pointsToSet_eq_ok_iff.1 found, mem⟩
            obtain ⟨l₁, o, place, object, derived⟩ := grounded.sent p x (Or.inl here)
            rw [source] at place
            obtain rfl := Option.some.inj place
            exact Or.inr (grow.groundedObject ⟨l', o, target, object, connects.passes derived⟩)
    · intro e mem
      by_cases none : objects.isEmpty
      · rw [if_pos none] at mem
        exact Or.inl mem
      · rw [if_neg none, Worklist.toList_add, List.mem_append, List.mem_singleton] at mem
        rcases mem with old | rfl
        · exact Or.inl old
        · exact Or.inr ⟨l', grow.locationAt? target⟩
    · intro e mem
      rcases FlowGraph.mem_edges_addEdge.1 mem with old | rfl
      · exact Or.inl old
      · exact Or.inr (grow.groundedFlow ⟨l, l', source, target, connects⟩)

/-- Two places that a statement or a call connects get a flow edge. -/
theorem flow_meets (grounded : s.Grounded q) {k k' : PointerKey} {l l' : Location}
    (source : s.location? k = some l) (target : s.location? k' = some l')
    (connects : Flow P.hierarchy (P.Derives q) l l') :
    Meets q s (flow k k') settled fun _ s' => s'.FlowsTo l l' := by
  refine (pointer_meets grounded source (.source connects)).bind
    fun p s₁ grounded₁ grow₁ read => ?_
  have target₁ := grow₁.location? target
  refine (pointer_meets grounded₁ target₁ (.target connects)).bind
    fun p' s₂ grounded₂ grow₂ read' => ?_
  have read₂ := grow₂.locationAt? read
  have edge := addFlow_meets grounded₂ ⟨l, l', read₂, read', connects⟩
  refine edge.bind fun _ s₃ grounded₃ grow₃ known => .pure grounded₃ ?_
  exact ⟨⟨p, p'⟩, known, grow₃.locationAt? read₂, grow₃.locationAt? read'⟩

end Solve

end PointsTo
