import PointsTo.Proofs.Solver.Accrual

/-!
# How contexts are spelled

The context of a method is spelled from a context of its caller or of its receiver, and the heap
context of an object from a context of the allocating method. A state records neither, so the invariant
names them: an object has a reachable method that allocates it, and a call a receiver object that its
variable has. Which elements a context has is said for the tables to come too, since a context that is
cut from another one may be picked before the other one is read.
-/

namespace PointsTo

open Relation (ReflTransGen)

variable {P : Problem} {q : Policy}

namespace SolverState

/-! ## What is spelled -/

section Parts

variable (q : Policy) (s : SolverState P)

/-- An object has been allocated by a method that can run, and its heap context has been cut from the
context of the method. -/
def Placed (x : CsObj) : Prop :=
  ∃ y obj, s.Runs y ∧ s.objects[x.obj.index]? = some obj ∧ obj.containerMethod = y.method ∧
    s.contexts.Cuts q.onAlloc y.context x.context

/-- The context of a called method is the one that the policy gives to it. -/
inductive Spelled : CallEdge .csCallSite .csMethod → Prop where
  | static {j : CsCallSiteId} {m : CsMethodId} {c c' : ContextId} {i : InvokeId} {call : Invoke}
      {callee : MethodId} (site : s.elements.callSites.get? j.index = some ⟨c, i⟩)
      (described : P.program.invokeAt i = .ok call) (kind : call.kind = .static)
      (target : s.elements.methods.get? m.index = some ⟨c', callee⟩)
      (cuts : s.contexts.Cuts (q.onCall (.callSite i)) c c') : Spelled ⟨.static, j, m⟩
  | onObject {j : CsCallSiteId} {m : CsMethodId} {c c' : ContextId} {i : InvokeId} {call : Invoke}
      {callee : MethodId} {recv : CsObjId} {x : CsObj} {obj : Obj} {v : VarId} {var : Var}
      (site : s.elements.callSites.get? j.index = some ⟨c, i⟩)
      (described : P.program.invokeAt i = .ok call) (kind : call.kind ≠ .static)
      (target : s.elements.methods.get? m.index = some ⟨c', callee⟩)
      (declared : P.program.varAt v = .ok var) (used : i ∈ var.uses.invokes)
      (receives : s.Receives c v recv) (object : s.elements.objects.get? recv.index = some x)
      (found : s.objects[x.obj.index]? = some obj)
      (reads : ∀ u : ContextTable, s.contexts.table.toList <+: u.table.toList → ∀ caller heap,
        u.table.get? c.index = some caller → u.table.get? x.context.index = some heap →
          u.table.get? c'.index = some (q.calleeContext ⟨c, i⟩ x obj caller heap)) :
      Spelled ⟨call.kind, j, m⟩

/-- Every context has elements of the strategy only, and is spelled as the policy says. -/
structure Spells : Prop where
  heap : P.heapModel.Reached P.program s.heap
  owns : ∀ ctx ∈ s.contexts.table.toList, q.Owns ctx
  objects : ∀ x ∈ s.elements.objects.toList, s.Placed q x
  edges : ∀ e ∈ s.callGraph.edges.toList, s.Spelled q e

end Parts

variable {s s' : SolverState P}

/-! ## Growth keeps it -/

theorem Grows.placed (grow : s.Grows s') {x : CsObj} (old : s.Placed q x) : s'.Placed q x := by
  obtain ⟨y, obj, runs, found, allocates, cuts⟩ := old
  exact ⟨y, obj, grow.toKept.runs runs, getElem?_of_prefix grow.heap found, allocates,
    cuts.mono grow.contexts⟩

theorem Grows.spelled (grow : s.Grows s') {e : CallEdge .csCallSite .csMethod}
    (old : s.Spelled q e) : s'.Spelled q e := by
  cases old with
  | static site described kind target cuts =>
    exact .static (Table.get?_of_prefix grow.callSites site) described kind
      (Table.get?_of_prefix grow.methods target) (cuts.mono grow.contexts)
  | onObject site described kind target declared used receives object found reads =>
    have found' := getElem?_of_prefix grow.heap found
    exact .onObject (Table.get?_of_prefix grow.callSites site) described kind
      (Table.get?_of_prefix grow.methods target) declared used (grow.toKept.receives receives)
      (Table.get?_of_prefix grow.csObjects object) found'
      fun u grow' => reads u (grow.contexts.trans grow')

/-- A state that has grown is spelled if what it has beyond the old state is. -/
theorem Spells.grow (spells : s.Spells q) (grow : s.Grows s')
    (heap : P.heapModel.Reached P.program s'.heap)
    (owns : ∀ ctx ∈ s'.contexts.table.toList, q.Owns ctx)
    (objects : ∀ x ∈ s'.elements.objects.toList, x ∈ s.elements.objects.toList ∨ s'.Placed q x)
    (edges : ∀ e ∈ s'.callGraph.edges.toList, e ∈ s.callGraph.edges.toList ∨ s'.Spelled q e) :
    s'.Spells q where
  heap := heap
  owns := owns
  objects x mem := (objects x mem).elim (fun old => grow.placed (spells.objects x old)) id
  edges e mem := (edges e mem).elim (fun old => grow.spelled (spells.edges e old)) id

/-! ## Steps keep it -/

section Steps

variable (answers : P.selector.Answers q) (perSite : P.heapModel.PerSite)
include answers perSite

/-- A call that is made for a reason has a callee with the right context. -/
theorem Caused.spelled {e : CallEdge .csCallSite .csMethod} (caused : s.Caused False e) :
    s.Spelled q e := by
  cases caused with
  | static site described kind target chosen =>
    exact .static site described kind target (answers.call chosen).cuts
  | onObject site described kind target object found chosen called =>
    obtain ⟨v, var, declared, used, receives⟩ := called.resolve_left id
    rw [perSite.objectAt] at found
    exact .onObject site described kind target declared used receives object (fetch_eq_ok_iff.1 found)
      fun u grow caller heap callers heaps => answers.receiver_reads chosen grow callers heaps

/-- An allocation places its object. -/
theorem placed_of_place {m : CsMethodId} {y : CsMethod} {position : Nat} {a : Allocation} {o : ObjId}
    {h : P.heapModel.State} {obj : Obj} {c : ContextId} {t : ContextTable}
    (heap : P.heapModel.Reached P.program s.heap) (reachable : m ∈ s.callGraph.reachable.toList)
    (known : s.elements.methods.get? m.index = some y)
    (allocates : P.program.allocation? ⟨y.method, position⟩ = some a)
    (made : P.heapModel.objectOf P.program ⟨y.method, position⟩ a.ty s.heap = .ok (o, h))
    (found : P.heapModel.objectAt h o = .ok obj)
    (chosen : P.selector.heapContext s.contexts y obj = .ok (c, t)) :
    Placed q { s with
      heap := h
      contexts := t
      elements := (s.elements.csObj ⟨c, obj.id⟩).2 } ⟨c, obj.id⟩ := by
  rw [perSite.objectAt] at found
  have present : (P.heapModel.objects h)[o.index]? = some obj := fetch_eq_ok_iff.1 found
  obtain ⟨o', h', obj', made', -, present', site, -⟩ := perSite.objectOf heap allocates
  rw [made] at made'
  obtain ⟨rfl, rfl⟩ := Prod.mk.inj (Except.ok.inj made')
  rw [present] at present'
  obtain rfl := Option.some.inj present'
  have id := (perSite.allocated (.objectOf heap allocates made) present).1
  refine ⟨y, obj, ⟨m, reachable, known⟩, ?_, ?_, (answers.heap chosen).cuts⟩
  · rw [id]
    exact present
  · rw [Obj.containerMethod, site]

theorem Begun.spells (spells : s.Spells q) (begun : Begun False s s') : s'.Spells q := by
  obtain ⟨heap, grow⟩ := begun.grows answers perSite spells.heap
  cases begun with
  | entry m => exact spells.grow grow heap spells.owns (fun _ => Or.inl) fun _ => Or.inl
  | justified step =>
    cases step with
    | quiet change contexts same objects entries edges =>
      refine spells.grow grow heap ?_ ?_ ?_
      · rw [contexts]
        exact spells.owns
      · rw [objects]
        exact fun _ => Or.inl
      · rw [edges]
        exact fun _ => Or.inl
    | reach sites =>
      refine spells.grow grow heap spells.owns (fun _ => Or.inl) ?_
      simp only [CallGraph.edges_addReachable]
      exact fun _ => Or.inl
    | select offered chosen =>
      exact spells.grow grow heap (answers.owns offered chosen spells.owns) (fun _ => Or.inl)
        fun _ => Or.inl
    | place reachable known allocates made found chosen =>
      refine spells.grow grow heap (answers.owns (.heap _ _) chosen spells.owns) ?_ fun _ => Or.inl
      intro x mem
      refine (Table.mem_toList_intern.1 mem).imp_right ?_
      rintro rfl
      exact placed_of_place answers perSite spells.heap reachable known allocates made found chosen
    | call caused =>
      refine spells.grow grow heap spells.owns (fun _ => Or.inl) fun e mem => ?_
      refine (CallGraph.mem_edges_addEdge.1 mem).imp_right ?_
      rintro rfl
      exact grow.spelled (caused.spelled answers perSite)

theorem spells_of_begun (spells : s.Spells q) (steps : ReflTransGen (Begun False) s s') :
    s'.Spells q := by
  induction steps with
  | refl => exact spells
  | tail _ step ih => exact step.spells answers perSite ih

end Steps

theorem spells_initial (q : Policy) : (initial P).Spells q where
  heap := .initial
  owns ctx mem := by
    have empty : ctx ∈ (Table.empty : Table Context).toList ∨ ctx = [] :=
      Table.mem_toList_intern.1 mem
    rcases empty with old | rfl
    · simp [Table.toList_empty] at old
    · exact q.owns_nil
  objects x mem := absurd mem List.not_mem_nil
  edges e mem := absurd mem List.not_mem_nil

end SolverState

end PointsTo
