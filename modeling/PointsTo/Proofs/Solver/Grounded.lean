import PointsTo.Proofs.Hierarchy.Total
import PointsTo.Proofs.Inclusion.Flow
import PointsTo.Proofs.Solver.Reading

/-!
# Grounded states

A state is grounded when its identifiers all stand for something and everything in it can be derived
with the inclusion rules: what it says, what is still on its way, and what its flow edges let through.
It makes no contexts, objects, locations and flow edges but those that derivable facts ask for.
The part of a state that an operation leaves alone stays grounded while the state grows, so each
operation has to justify only what it adds.
-/

namespace PointsTo

open Inclusion

/-- A call can call a method: it has one argument for each parameter, and if it is a call on an object
the method has a receiver variable. -/
def Program.Callable (p : Program) (call : Invoke) (callee : MethodId) : Prop :=
  ∀ method, p.methods[callee.index]? = some method →
    call.args.length = method.params.length ∧ (call.kind ≠ .static → method.receiver ≠ none)

theorem Program.callable_iff {p : Program} {call : Invoke} {callee : MethodId} {method : Method}
    (declared : p.methods[callee.index]? = some method) : p.Callable call callee ↔
      call.args.length = method.params.length ∧ (call.kind ≠ .static → method.receiver ≠ none) := by
  simp only [Program.Callable, declared, Option.some.injEq, forall_eq']

/-- What the analysis of a problem relies on, to follow a policy on contexts. -/
structure Problem.Lawful (P : Problem) (q : Policy) : Prop where
  program : P.program.WellFormed
  selector : P.selector.Follows q
  heap : P.heapModel.PerSite

variable {P : Problem}

/-- The facts about a problem that have a derivation. -/
abbrev Problem.Derives (P : Problem) (q : Policy) (f : Fact) : Prop :=
  Derivable P.hierarchy q f

namespace SolverState

/-! ## What is grounded -/

section Parts

variable (q : Policy) (s : SolverState P)

/-- An element of a context names something. -/
def Names : ContextElement → Prop
  | .callSite i => i.index < P.program.invokes.size
  | .object o => o.index < s.objects.size
  | .type c => c.index < P.program.classes.size

/-- A context is not too long, its elements name something, and it is in use. -/
def GroundedContext (ctx : Context) : Prop :=
  ctx.length ≤ q.strategy.depth ∧ (∀ e ∈ ctx, s.Names e) ∧
    ∃ t : Trail, ctx.map s.mark? = t.map some ∧ Used P.hierarchy q t

/-- An object has a heap context and an allocation, and some place may hold it. -/
def GroundedObj (x : CsObj) : Prop :=
  ∃ t obj, s.trail? x.context = some t ∧ s.objects[x.obj.index]? = some obj ∧
    Made P.hierarchy q ⟨t, obj.site⟩

/-- A method can run under its context. -/
def GroundedMethod (x : CsMethod) : Prop :=
  ∃ t, s.trail? x.context = some t ∧ P.Derives q (.reachable ⟨t, x.method⟩)

/-- A call site has a context. -/
def GroundedCallSite (x : CsCallSite) : Prop :=
  (∃ t, s.trail? x.context = some t) ∧ x.invoke.index < P.program.invokes.size

/-- A location stands for a place that the analysis meets. -/
def GroundedKey (k : PointerKey) : Prop :=
  ∃ l, s.location? k = some l ∧ Met P.hierarchy q l

/-- A location may hold an object. -/
def GroundedObject (p : PointerId) (x : CsObjId) : Prop :=
  ∃ l o, s.locationAt? p = some l ∧ s.heapObj? x = some o ∧ P.Derives q (.pointsTo l o)

/-- A flow edge connects two places that a statement or a call connects. -/
def GroundedFlow (e : FlowEdge) : Prop :=
  ∃ l l', s.locationAt? e.source = some l ∧ s.locationAt? e.target = some l' ∧
    Flow P.hierarchy (P.Derives q) l l'

/-- A method under a context can run. -/
def GroundedReachable (m : CsMethodId) : Prop :=
  ∃ a, s.activation? m = some a ∧ P.Derives q (.reachable a)

/-- A method of the program from which everything starts. -/
def GroundedEntry (m : CsMethodId) : Prop :=
  ∃ e ∈ P.program.entries, s.activation? m = some ⟨[], e⟩

/-- The call sites of a method are the calls in its body, in their order. -/
def GroundedSites (m : CsMethodId) : Prop :=
  ∃ a method, s.activation? m = some a ∧ P.program.methods[a.method.index]? = some method ∧
    (s.callGraph.sitesIn m).map s.callPoint? =
      (method.body.toList.filterMap Stmt.call?).map fun i => some ⟨a.trail, i⟩

/-- An object comes from a method that can run. -/
def GroundedAllocation (P : Problem) (q : Policy) (obj : Obj) : Prop :=
  ∃ t, P.Derives q (.reachable ⟨t, obj.site.method⟩)

/-- A call can be made. -/
def GroundedCall (e : CallEdge .csCallSite .csMethod) : Prop :=
  ∃ site a, s.callPoint? e.site = some site ∧ s.activation? e.callee = some a ∧
    P.Derives q (.calls e.kind site a)

/-- A call is one that its arguments and its receiver allow. -/
def PassingCall (e : CallEdge .csCallSite .csMethod) : Prop :=
  ∃ site a, s.callPoint? e.site = some site ∧ s.activation? e.callee = some a ∧
    ∀ call, P.program.invokes[site.invoke.index]? = some call → P.program.Callable call a.method

/-- Everything in a state stands for something and can be derived. -/
structure Grounded : Prop where
  heap : P.heapModel.Reached P.program s.heap
  allocations : ∀ obj ∈ s.objects.toList, GroundedAllocation P q obj
  contexts : ∀ ctx ∈ s.contexts.table.toList, s.GroundedContext q ctx
  csObjects : ∀ x ∈ s.elements.objects.toList, s.GroundedObj q x
  methods : ∀ x ∈ s.elements.methods.toList, s.GroundedMethod q x
  callSites : ∀ x ∈ s.elements.callSites.toList, s.GroundedCallSite x
  pointers : ∀ k ∈ s.elements.pointers.toList, s.GroundedKey q k
  sent : ∀ p x, s.Sent p x → s.GroundedObject q p x
  pending : ∀ e ∈ s.worklist.toList, ∃ l, s.locationAt? e.target = some l
  flow : ∀ e ∈ s.flow.edges.toList, s.GroundedFlow q e
  entries : ∀ m ∈ s.callGraph.entries.toList, s.GroundedEntry m
  reachable : ∀ m ∈ s.callGraph.reachable.toList, s.GroundedReachable q m
  sites : ∀ m ∈ s.callGraph.reachable.toList, s.GroundedSites m
  callEdges : ∀ e ∈ s.callGraph.edges.toList, s.GroundedCall q e
  passing : ∀ e ∈ s.callGraph.edges.toList, s.PassingCall e

end Parts

variable {q : Policy} {s s' : SolverState P}

/-! ## Growth keeps it -/

section Grows

variable (grow : s.Grows s')
include grow

theorem Grows.names {e : ContextElement} (names : s.Names e) : s'.Names e := by
  cases e with
  | callSite i => exact names
  | type c => exact names
  | object o =>
    have size := grow.heap.length_le
    rw [Array.length_toList, Array.length_toList] at size
    exact Nat.lt_of_lt_of_le names size

theorem Grows.groundedContext {ctx : Context} (old : s.GroundedContext q ctx) :
    s'.GroundedContext q ctx := by
  obtain ⟨short, names, t, marks, used⟩ := old
  exact ⟨short, fun e he => grow.names (names e he), t, grow.marks marks, used⟩

theorem Grows.groundedObj {x : CsObj} (old : s.GroundedObj q x) : s'.GroundedObj q x := by
  obtain ⟨t, obj, read, found, made⟩ := old
  exact ⟨t, obj, grow.trail? read, getElem?_of_prefix grow.heap found, made⟩

theorem Grows.groundedMethod {x : CsMethod} (old : s.GroundedMethod q x) :
    s'.GroundedMethod q x := by
  obtain ⟨t, read, derived⟩ := old
  exact ⟨t, grow.trail? read, derived⟩

theorem Grows.groundedCallSite {x : CsCallSite} (old : s.GroundedCallSite x) :
    s'.GroundedCallSite x := by
  obtain ⟨⟨t, read⟩, inside⟩ := old
  exact ⟨⟨t, grow.trail? read⟩, inside⟩

theorem Grows.groundedKey {k : PointerKey} (old : s.GroundedKey q k) : s'.GroundedKey q k := by
  obtain ⟨l, read, met⟩ := old
  exact ⟨l, grow.location? read, met⟩

theorem Grows.groundedObject {p : PointerId} {x : CsObjId} (old : s.GroundedObject q p x) :
    s'.GroundedObject q p x := by
  obtain ⟨l, o, place, object, derived⟩ := old
  exact ⟨l, o, grow.locationAt? place, grow.heapObj? object, derived⟩

theorem Grows.groundedFlow {e : FlowEdge} (old : s.GroundedFlow q e) : s'.GroundedFlow q e := by
  obtain ⟨l, l', source, target, flow⟩ := old
  exact ⟨l, l', grow.locationAt? source, grow.locationAt? target, flow⟩

theorem Grows.groundedEntry {m : CsMethodId} (old : s.GroundedEntry m) : s'.GroundedEntry m := by
  obtain ⟨e, listed, read⟩ := old
  exact ⟨e, listed, grow.activation? read⟩

/-- The call sites of a reachable method stay as they are. -/
theorem Grows.groundedSites {m : CsMethodId} (old : s.GroundedSites m)
    (sites : s'.callGraph.sitesIn m = s.callGraph.sitesIn m) : s'.GroundedSites m := by
  obtain ⟨a, method, read, declared, calls⟩ := old
  refine ⟨a, method, grow.activation? read, declared, ?_⟩
  rw [sites, ← calls]
  refine List.map_congr_left fun i mem => ?_
  have known : s.callPoint? i ∈ (s.callGraph.sitesIn m).map s.callPoint? := List.mem_map_of_mem mem
  rw [calls] at known
  obtain ⟨j, -, point⟩ := List.mem_map.1 known
  rw [← point]
  exact grow.callPoint? point.symm

theorem Grows.groundedReachable {m : CsMethodId} (old : s.GroundedReachable q m) :
    s'.GroundedReachable q m := by
  obtain ⟨a, read, derived⟩ := old
  exact ⟨a, grow.activation? read, derived⟩

theorem Grows.groundedCall {e : CallEdge .csCallSite .csMethod} (old : s.GroundedCall q e) :
    s'.GroundedCall q e := by
  obtain ⟨site, a, point, callee, derived⟩ := old
  exact ⟨site, a, grow.callPoint? point, grow.activation? callee, derived⟩

theorem Grows.passingCall {e : CallEdge .csCallSite .csMethod} (old : s.PassingCall e) :
    s'.PassingCall e := by
  obtain ⟨site, a, point, callee, passing⟩ := old
  exact ⟨site, a, grow.callPoint? point, grow.activation? callee, passing⟩

end Grows

/-! ## Additions -/

section Adds

variable (q : Policy) (s s' : SolverState P)

/-- What a state may add to its tables of elements. -/
structure AddsElements : Prop where
  csObjects : ∀ x ∈ s'.elements.objects.toList,
    x ∈ s.elements.objects.toList ∨ s'.GroundedObj q x
  methods : ∀ x ∈ s'.elements.methods.toList,
    x ∈ s.elements.methods.toList ∨ s'.GroundedMethod q x
  callSites : ∀ x ∈ s'.elements.callSites.toList,
    x ∈ s.elements.callSites.toList ∨ s'.GroundedCallSite x
  pointers : ∀ k ∈ s'.elements.pointers.toList,
    k ∈ s.elements.pointers.toList ∨ s'.GroundedKey q k

/-- What a state may add to the objects on their way, and to the edges that they take. -/
structure AddsTraffic : Prop where
  sent : ∀ p x, s'.Sent p x → s.Sent p x ∨ s'.GroundedObject q p x
  pending : ∀ e ∈ s'.worklist.toList,
    e ∈ s.worklist.toList ∨ ∃ l, s'.locationAt? e.target = some l
  flow : ∀ e ∈ s'.flow.edges.toList, e ∈ s.flow.edges.toList ∨ s'.GroundedFlow q e

/-- What a state may add to its call graph. -/
structure AddsCalls : Prop where
  entries : ∀ m ∈ s'.callGraph.entries.toList,
    m ∈ s.callGraph.entries.toList ∨ s'.GroundedEntry m
  reachable : ∀ m ∈ s'.callGraph.reachable.toList,
    m ∈ s.callGraph.reachable.toList ∨ s'.GroundedReachable q m
  sites : ∀ m ∈ s'.callGraph.reachable.toList,
    m ∈ s.callGraph.reachable.toList ∧ s'.callGraph.sitesIn m = s.callGraph.sitesIn m ∨
      s'.GroundedSites m
  callEdges : ∀ e ∈ s'.callGraph.edges.toList,
    e ∈ s.callGraph.edges.toList ∨ s'.GroundedCall q e ∧ s'.PassingCall e

/-- What a state may add while it grows. -/
structure Adds : Prop where
  heap : P.heapModel.Reached P.program s'.heap
  allocations : ∀ obj ∈ s'.objects.toList, obj ∈ s.objects.toList ∨ GroundedAllocation P q obj
  contexts : ∀ ctx ∈ s'.contexts.table.toList,
    ctx ∈ s.contexts.table.toList ∨ s'.GroundedContext q ctx
  elements : AddsElements q s s'
  traffic : AddsTraffic q s s'
  calls : AddsCalls q s s'

end Adds

/-! Parts that stay as they are add nothing. -/

theorem AddsElements.of_eq (objects : s'.elements.objects = s.elements.objects)
    (methods : s'.elements.methods = s.elements.methods)
    (callSites : s'.elements.callSites = s.elements.callSites)
    (pointers : s'.elements.pointers = s.elements.pointers) : AddsElements q s s' := by
  refine ⟨?_, ?_, ?_, ?_⟩
  · rw [objects]
    exact fun _ => Or.inl
  · rw [methods]
    exact fun _ => Or.inl
  · rw [callSites]
    exact fun _ => Or.inl
  · rw [pointers]
    exact fun _ => Or.inl

theorem AddsTraffic.of_eq (sent : ∀ p x, s'.Sent p x → s.Sent p x)
    (worklist : s'.worklist = s.worklist) (flow : s'.flow = s.flow) : AddsTraffic q s s' := by
  refine ⟨fun p x mem => Or.inl (sent p x mem), ?_, ?_⟩
  · rw [worklist]
    exact fun _ => Or.inl
  · rw [flow]
    exact fun _ => Or.inl

theorem AddsCalls.of_eq (same : s'.callGraph = s.callGraph) : AddsCalls q s s' := by
  refine ⟨?_, ?_, ?_, ?_⟩
  · rw [same]
    exact fun _ => Or.inl
  · rw [same]
    exact fun _ => Or.inl
  · rw [same]
    exact fun _ mem => Or.inl ⟨mem, rfl⟩
  · rw [same]
    exact fun _ => Or.inl

/-- Additions that make no contexts and no objects. -/
theorem Adds.of_parts (grounded : s.Grounded q) (heap : s'.heap = s.heap)
    (contexts : s'.contexts = s.contexts) (elements : AddsElements q s s')
    (traffic : AddsTraffic q s s') (calls : AddsCalls q s s') : Adds q s s' := by
  refine ⟨?_, ?_, ?_, elements, traffic, calls⟩
  · rw [heap]
    exact grounded.heap
  · rw [objects, objects, heap]
    exact fun _ => Or.inl
  · rw [contexts]
    exact fun _ => Or.inl

/-- A state adds nothing by counting. -/
theorem Adds.of_same (grounded : s.Grounded q) (heap : s'.heap = s.heap)
    (contexts : s'.contexts = s.contexts) (elements : s'.elements = s.elements)
    (worklist : s'.worklist = s.worklist) (flow : s'.flow = s.flow)
    (callGraph : s'.callGraph = s.callGraph) : Adds q s s' := by
  apply Adds.of_parts grounded heap contexts
  · apply AddsElements.of_eq <;> rw [elements]
  · refine .of_eq (fun p x sent => ?_) worklist flow
    rw [Sent, Contains, Awaits, elements, worklist] at sent
    exact sent
  · exact .of_eq callGraph

/-- A grounded state stays grounded when everything that it adds is. -/
theorem Grounded.grow (grounded : s.Grounded q) (grow : s.Grows s') (adds : Adds q s s') :
    s'.Grounded q where
  heap := adds.heap
  allocations obj mem := (adds.allocations obj mem).elim (grounded.allocations obj) id
  contexts ctx mem := (adds.contexts ctx mem).elim
    (fun old => grow.groundedContext (grounded.contexts ctx old)) id
  csObjects x mem := (adds.elements.csObjects x mem).elim
    (fun old => grow.groundedObj (grounded.csObjects x old)) id
  methods x mem := (adds.elements.methods x mem).elim
    (fun old => grow.groundedMethod (grounded.methods x old)) id
  callSites x mem := (adds.elements.callSites x mem).elim
    (fun old => grow.groundedCallSite (grounded.callSites x old)) id
  pointers k mem := (adds.elements.pointers k mem).elim
    (fun old => grow.groundedKey (grounded.pointers k old)) id
  sent p x mem := (adds.traffic.sent p x mem).elim
    (fun old => grow.groundedObject (grounded.sent p x old)) id
  pending e mem := (adds.traffic.pending e mem).elim
    (fun old => (grounded.pending e old).imp fun _ => grow.locationAt?) id
  flow e mem := (adds.traffic.flow e mem).elim
    (fun old => grow.groundedFlow (grounded.flow e old)) id
  entries m mem := (adds.calls.entries m mem).elim
    (fun old => grow.groundedEntry (grounded.entries m old)) id
  reachable m mem := (adds.calls.reachable m mem).elim
    (fun old => grow.groundedReachable (grounded.reachable m old)) id
  sites m mem := (adds.calls.sites m mem).elim
    (fun old => grow.groundedSites (grounded.sites m old.1) old.2) id
  callEdges e mem := (adds.calls.callEdges e mem).elim
    (fun old => grow.groundedCall (grounded.callEdges e old)) And.left
  passing e mem := (adds.calls.callEdges e mem).elim
    (fun old => grow.passingCall (grounded.passing e old)) And.right

/-! ## Readings in grounded states -/

/-- Every context of a grounded state stands for a sequence. -/
theorem Grounded.exists_trail? (grounded : s.Grounded q) {c : ContextId} {ctx : Context}
    (known : s.contexts.table.get? c.index = some ctx) :
    ∃ t, s.trail? c = some t ∧ Used P.hierarchy q t := by
  obtain ⟨-, -, t, marks, used⟩ := grounded.contexts ctx (Table.mem_toList_of_get? known)
  exact ⟨t, trail?_eq_some_iff.2 ⟨ctx, known, marks⟩, used⟩

theorem Grounded.exists_heapObj? (grounded : s.Grounded q) {x : CsObjId} {cs : CsObj}
    (known : s.elements.objects.get? x.index = some cs) :
    ∃ o, s.heapObj? x = some o ∧ Made P.hierarchy q o := by
  obtain ⟨t, obj, read, found, made⟩ := grounded.csObjects cs (Table.mem_toList_of_get? known)
  exact ⟨⟨t, obj.site⟩, heapObj?_eq_some_iff.2 ⟨cs, obj, known, found, read, rfl⟩, made⟩

theorem Grounded.exists_activation? (grounded : s.Grounded q) {m : CsMethodId} {x : CsMethod}
    (known : s.elements.methods.get? m.index = some x) :
    ∃ t, s.trail? x.context = some t ∧ s.activation? m = some ⟨t, x.method⟩ ∧
      P.Derives q (.reachable ⟨t, x.method⟩) := by
  obtain ⟨t, read, derived⟩ := grounded.methods x (Table.mem_toList_of_get? known)
  exact ⟨t, read, activation?_eq_some_iff.2 ⟨x.context, known, read⟩, derived⟩

theorem Grounded.exists_locationAt? (grounded : s.Grounded q) {p : PointerId} {k : PointerKey}
    (known : s.elements.pointers.get? p.index = some k) :
    ∃ l, s.locationAt? p = some l ∧ s.location? k = some l ∧ Met P.hierarchy q l := by
  obtain ⟨l, read, met⟩ := grounded.pointers k (Table.mem_toList_of_get? known)
  exact ⟨l, locationAt?_eq_some_iff.2 ⟨k, known, read⟩, read, met⟩

/-- What was on its way is read as before while the state grows. -/
theorem Grounded.readings_of_sent (grounded : s.Grounded q) (grow : s.Grows s') {p : PointerId}
    {x : CsObjId} (sent : s.Sent p x) {l : Location} {o : HeapObj}
    (place : s'.locationAt? p = some l) (object : s'.heapObj? x = some o) :
    s.locationAt? p = some l ∧ s.heapObj? x = some o := by
  obtain ⟨l', o', place', object', -⟩ := grounded.sent p x sent
  rw [grow.locationAt? place'] at place
  rw [grow.heapObj? object'] at object
  obtain rfl := Option.some.inj place
  obtain rfl := Option.some.inj object
  exact ⟨place', object'⟩

/-- If no methods are made reachable, none that can run is new. -/
theorem Grounded.reachable_of_same (grounded : s.Grounded q) (grow : s.Grows s')
    (same : ∀ m ∈ s'.callGraph.reachable.toList, m ∈ s.callGraph.reachable.toList) {a : Activation}
    (holds : s'.Holds (.reachable a)) : s.Holds (.reachable a) := by
  obtain ⟨m, listed, read⟩ := holds
  obtain ⟨a', read', -⟩ := grounded.reachable m (same m listed)
  rw [grow.activation? read'] at read
  obtain rfl := Option.some.inj read
  exact ⟨m, same m listed, read'⟩

/-- If the call graph gets no edges, no call is new. -/
theorem Grounded.calls_of_same (grounded : s.Grounded q) (grow : s.Grows s')
    (same : ∀ e ∈ s'.callGraph.edges.toList, e ∈ s.callGraph.edges.toList) {kind : CallKind}
    {site : CallPoint} {a : Activation} (holds : s'.Holds (.calls kind site a)) :
    s.Holds (.calls kind site a) := by
  obtain ⟨e, listed, kinds, point, callee⟩ := holds
  obtain ⟨site', a', point', callee', -⟩ := grounded.callEdges e (same e listed)
  rw [grow.callPoint? point'] at point
  rw [grow.activation? callee'] at callee
  obtain rfl := Option.some.inj point
  obtain rfl := Option.some.inj callee
  exact ⟨e, same e listed, kinds, point', callee'⟩

/-- What a state says as much of as an earlier one, it says as much of in the same words. -/
theorem Grounded.holds_of_same (grounded : s.Grounded q) (grow : s.Grows s')
    (reachable : ∀ m ∈ s'.callGraph.reachable.toList, m ∈ s.callGraph.reachable.toList)
    (callEdges : ∀ e ∈ s'.callGraph.edges.toList, e ∈ s.callGraph.edges.toList)
    (contains : ∀ {p x}, s'.Contains p x → s.Contains p x) {f : Fact} (holds : s'.Holds f) :
    s.Holds f := by
  cases f with
  | reachable a => exact grounded.reachable_of_same grow reachable holds
  | pointsTo l o =>
    obtain ⟨p, x, place, object, mem⟩ := holds
    have arrived := contains mem
    obtain ⟨place', object'⟩ := grounded.readings_of_sent grow (Or.inl arrived) place object
    exact ⟨p, x, place', object', arrived⟩
  | calls kind site a => exact grounded.calls_of_same grow callEdges holds

theorem Grounded.distinctSites (lawful : P.Lawful q) (grounded : s.Grounded q) :
    s.DistinctSites :=
  fun _ _ _ _ found found' same => lawful.heap.unique grounded.heap found found' same

/-- What a grounded state says can be derived. -/
theorem Grounded.derives (grounded : s.Grounded q) {f : Fact} (holds : s.Holds f) :
    P.Derives q f := by
  cases f with
  | reachable a =>
    obtain ⟨m, listed, read⟩ := holds
    obtain ⟨a', read', derived⟩ := grounded.reachable m listed
    rw [read] at read'
    exact Option.some.inj read' ▸ derived
  | pointsTo l o =>
    obtain ⟨p, x, place, object, mem⟩ := holds
    obtain ⟨l', o', place', object', derived⟩ := grounded.sent p x (Or.inl mem)
    rw [place] at place'
    rw [object] at object'
    obtain rfl := Option.some.inj place'
    exact Option.some.inj object' ▸ derived
  | calls kind site a =>
    obtain ⟨e, listed, rfl, point, callee⟩ := holds
    obtain ⟨site', a', point', callee', derived⟩ := grounded.callEdges e listed
    rw [point] at point'
    rw [callee] at callee'
    obtain rfl := Option.some.inj point'
    exact Option.some.inj callee' ▸ derived

/-- The state that a run starts from is grounded. -/
theorem grounded_initial (lawful : P.Lawful q) : (initial P).Grounded q where
  heap := .initial
  allocations obj mem := by
    have none : (initial P).objects = #[] := lawful.heap.initial
    simp [none] at mem
  contexts ctx mem := by
    have empty : ctx ∈ (Table.empty : Table Context).toList ∨ ctx = [] :=
      Table.mem_toList_intern.1 mem
    rcases empty with old | rfl
    · simp [Table.toList_empty] at old
    · exact ⟨Nat.zero_le _, by simp, [], rfl, .empty⟩
  csObjects x mem := absurd mem List.not_mem_nil
  methods x mem := absurd mem List.not_mem_nil
  callSites x mem := absurd mem List.not_mem_nil
  pointers k mem := absurd mem List.not_mem_nil
  sent p x sent := by
    rcases sent with ⟨set, found, -⟩ | ⟨e, pending, -⟩
    · simp [initial, ElementStore.empty] at found
    · simp [initial] at pending
  pending e mem := by simp [initial] at mem
  flow e mem := absurd mem List.not_mem_nil
  entries m mem := absurd mem List.not_mem_nil
  reachable m mem := absurd mem List.not_mem_nil
  sites m mem := absurd mem List.not_mem_nil
  callEdges e mem := absurd mem List.not_mem_nil
  passing e mem := absurd mem List.not_mem_nil

end SolverState

end PointsTo
