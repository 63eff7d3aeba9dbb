import PointsTo.Proofs.Context.Selection
import PointsTo.Proofs.IdSet
import PointsTo.Proofs.Inclusion.Rules
import PointsTo.Proofs.Program.Check
import PointsTo.Proofs.Solver.Quiet

/-!
# Changes and what they are made for

A single change may put any contexts and objects into a state and any edge into its call graph. The
operations do not: contexts come from the selector, objects from allocations of reachable methods, and
edges from calls that stand in the program and have been given a context. A justified change comes
with its reason, and every operation that comes back has made justified changes only.

The reasons speak of the state in which the change is made. While states grow, they stay true.
-/

namespace PointsTo

open Relation (ReflTransGen)

variable {P : Problem}

/-! ## Operations by steps of a relation -/

namespace Solve

section Rules

variable {α β : Type} {R R' : SolverState P → SolverState P → Prop} {s s' : SolverState P}
  {x : Solve P α} {f : α → Solve P β}

/-- An operation comes back with a result, with a failure or for want of rounds, but not from a
reference out of range. -/
def ComesBack (x : Solve P α) (s s' : SolverState P) : Prop :=
  (∃ a, x s = .ok a s') ∨ (∃ e, x s = .error (.failed e) s') ∨ x s = .error .outOfRounds s'

/-- If an operation comes back, it has gone by steps of a relation. -/
def GoesBy (R : SolverState P → SolverState P → Prop) (s : SolverState P) (x : Solve P α) : Prop :=
  ∀ s', x.ComesBack s s' → ReflTransGen R s s'

theorem GoesBy.ok {a : α} (goes : GoesBy R s x) (run : x s = .ok a s') : ReflTransGen R s s' :=
  goes s' (Or.inl ⟨a, run⟩)

theorem GoesBy.of_ok {a : α} (run : x s = .ok a s') (steps : ReflTransGen R s s') :
    GoesBy R s x := by
  rintro s'' (⟨b, run'⟩ | ⟨e, run'⟩ | run')
  · rw [run] at run'
    cases run'
    exact steps
  · rw [run] at run'
    cases run'
  · rw [run] at run'
    cases run'

theorem GoesBy.of_outOfRange {r : OutOfRange} (run : x s = .error (.outOfRange r) s') :
    GoesBy R s x := by
  rintro s'' (⟨b, run'⟩ | ⟨e, run'⟩ | run') <;>
  · rw [run] at run'
    cases run'

/-- An operation that goes on as another one does after some steps. -/
theorem GoesBy.of_run {y : Solve P α} (run : x s = y s') (steps : ReflTransGen R s s')
    (goes : GoesBy R s' y) : GoesBy R s x := by
  intro s'' back
  refine steps.trans (goes s'' ?_)
  rwa [ComesBack, run] at back

theorem GoesBy.bind (first : GoesBy R s x)
    (rest : ∀ a s', x s = .ok a s' → ReflTransGen R s s' → GoesBy R s' (f a)) :
    GoesBy R s (x >>= f) := by
  intro s'' back
  rw [ComesBack, bind_run] at back
  cases run : x s with
  | ok a s' =>
    rw [run] at back
    have steps := first.ok run
    exact steps.trans (rest a s' run steps s'' back)
  | error e s' =>
    rw [run] at back
    refine first s'' ?_
    rw [ComesBack, run]
    rcases back with ⟨b, same⟩ | ⟨e', same⟩ | same
    · cases same
    · cases same
      exact Or.inr (Or.inl ⟨e', rfl⟩)
    · cases same
      exact Or.inr (Or.inr rfl)

theorem GoesBy.mono (goes : GoesBy R s x) (weaker : ∀ s s', R s s' → R' s s') : GoesBy R' s x :=
  fun s' back => ReflTransGen.mono weaker _ _ (goes s' back)

theorem GoesBy.pure (a : α) : GoesBy R s (Pure.pure a : Solve P α) :=
  .of_ok rfl .refl

theorem GoesBy.throw {e : AnalysisError} :
    GoesBy R s (MonadExcept.throw (Stop.failed e) : Solve P α) := by
  rintro s'' (⟨b, run⟩ | ⟨e, run⟩ | run)
  · cases run
  · cases run
    exact .refl
  · cases run

theorem GoesBy.throw_outOfRounds : GoesBy R s (MonadExcept.throw Stop.outOfRounds : Solve P α) := by
  rintro s'' (⟨b, run⟩ | ⟨e, run⟩ | run)
  · cases run
  · cases run
  · cases run
    exact .refl

theorem GoesBy.get {f : SolverState P → Solve P β} (rest : GoesBy R s (f s)) :
    GoesBy R s (MonadState.get >>= f : Solve P β) :=
  .of_run rfl .refl rest

theorem GoesBy.modify {f : SolverState P → SolverState P} (step : R s (f s)) :
    GoesBy R s (MonadState.modifyGet fun s => ((), f s)) :=
  .of_ok (modify_run s f) (.single step)

theorem GoesBy.lookup {r : Except OutOfRange α} (rest : ∀ a, r = .ok a → GoesBy R s (f a)) :
    GoesBy R s (liftM r >>= f : Solve P β) := by
  cases found : r with
  | ok a => exact .of_run rfl .refl (rest a found)
  | error e => exact .of_outOfRange (r := e) rfl

/-- A loop whose operations each need what the steps keep. -/
theorem GoesBy.forM {f : α → Solve P Unit} {l : List α} (inv : SolverState P → Prop)
    (kept : ∀ s s', ReflTransGen R s s' → inv s → inv s')
    (each : ∀ a ∈ l, ∀ s, inv s → GoesBy R s (f a)) (start : inv s) : GoesBy R s (l.forM f) := by
  induction l generalizing s with
  | nil => exact .pure ()
  | cons a l ih =>
    refine (each a List.mem_cons_self s start).bind fun _ s' _ steps => ?_
    exact ih (fun b mem => each b (List.mem_cons_of_mem a mem)) (kept s s' steps start)

theorem GoesBy.forM_each {f : α → Solve P Unit} {l : List α} (each : ∀ a s, GoesBy R s (f a)) :
    GoesBy R s (l.forM f) :=
  .forM (fun _ => True) (fun _ _ _ => id) (fun a _ s _ => each a s) trivial

theorem GoesBy.mapM {f : α → Solve P β} {l : List α} (each : ∀ a s, GoesBy R s (f a)) :
    GoesBy R s (l.mapM f) := by
  induction l generalizing s with
  | nil => exact .pure []
  | cons a l ih =>
    rw [List.mapM_cons]
    exact (each a s).bind fun b s' _ _ => ih.bind fun bs _ _ _ => .pure (b :: bs)

end Rules

end Solve

/-! ## Justified changes -/

namespace SolverState

section Reasons

variable (s : SolverState P)

/-- A variable has an object under a context. -/
def Receives (c : ContextId) (v : VarId) (o : CsObjId) : Prop :=
  ∃ p, s.elements.pointers.get? p.index = some (.var c v) ∧ s.Contains p o

/-- A call is made on an object since its receiver variable has the object, or it is made by hand. -/
def CalledOn (hand : Prop) (c : ContextId) (i : InvokeId) (recv : CsObjId) : Prop :=
  hand ∨ ∃ v var, P.program.varAt v = .ok var ∧ i ∈ var.uses.invokes ∧ s.Receives c v recv

/-- The reason for an edge of the call graph. It comes from a call of the program whose callee has been
given a context, and if it is a call on an object there is a reason to make it on that object. -/
inductive Caused (hand : Prop) : CallEdge .csCallSite .csMethod → Prop where
  | static {j : CsCallSiteId} {m : CsMethodId} {c c' : ContextId} {i : InvokeId} {call : Invoke}
      {callee : MethodId} {t : ContextTable}
      (site : s.elements.callSites.get? j.index = some ⟨c, i⟩)
      (described : P.program.invokeAt i = .ok call) (kind : call.kind = .static)
      (target : s.elements.methods.get? m.index = some ⟨c', callee⟩)
      (chosen : P.selector.callContext t ⟨c, i⟩ callee = .ok (c', s.contexts)) :
      Caused hand ⟨.static, j, m⟩
  | onObject {j : CsCallSiteId} {m : CsMethodId} {c c' : ContextId} {i : InvokeId} {call : Invoke}
      {callee : MethodId} {t : ContextTable} {recv : CsObjId} {recvObj : CsObj} {obj : Obj}
      (site : s.elements.callSites.get? j.index = some ⟨c, i⟩)
      (described : P.program.invokeAt i = .ok call) (kind : call.kind ≠ .static)
      (target : s.elements.methods.get? m.index = some ⟨c', callee⟩)
      (object : s.elements.objects.get? recv.index = some recvObj)
      (found : P.heapModel.objectAt s.heap recvObj.obj = .ok obj)
      (chosen : P.selector.receiverContext t ⟨c, i⟩ recvObj obj callee = .ok (c', s.contexts))
      (called : CalledOn s hand c i recv) : Caused hand ⟨call.kind, j, m⟩

/-- The call sites of a method under a context are known. -/
def KnowsSites (m : CsMethodId) : Prop :=
  ∃ y invokes, s.elements.methods.get? m.index = some y ∧
    P.program.invokesIn y.method = .ok invokes ∧
    ∀ i ∈ invokes, ⟨y.context, i⟩ ∈ s.elements.callSites.toList

end Reasons

/-- A change together with the reason for it. The changes of an allocation are taken as one. -/
inductive Justified (hand : Prop) : SolverState P → SolverState P → Prop where
  /-- No context, no object, no entry, no edge and no reachable method is added. -/
  | quiet {s s' : SolverState P} (change : Change s s') (contexts : s'.contexts = s.contexts)
      (heap : s'.heap = s.heap) (objects : s'.elements.objects = s.elements.objects)
      (entries : s'.callGraph.entries = s.callGraph.entries)
      (edges : s'.callGraph.edges = s.callGraph.edges)
      (reachable : s'.callGraph.reachable = s.callGraph.reachable) : Justified hand s s'
  /-- A method becomes reachable when its call sites are known. -/
  | reach {s : SolverState P} {m : CsMethodId} (sites : List CsCallSiteId)
      (new : s.callGraph.isReachable m = false) (known : s.KnowsSites m) :
      Justified hand s { s with callGraph := (s.callGraph.addReachable m sites).2 }
  | select {s : SolverState P} {choose : ContextTable → Selection} {c : ContextId} {t : ContextTable}
      (offered : P.selector.Offers choose) (chosen : choose s.contexts = .ok (c, t)) :
      Justified hand s { s with contexts := t }
  /-- An allocation of a reachable method. -/
  | place {s : SolverState P} {m : CsMethodId} {y : CsMethod} {position : Nat} {a : Allocation}
      {o : ObjId} {h : P.heapModel.State} {obj : Obj} {c : ContextId} {t : ContextTable}
      (reachable : m ∈ s.callGraph.reachable.toList)
      (known : s.elements.methods.get? m.index = some y)
      (allocates : P.program.allocation? ⟨y.method, position⟩ = some a)
      (made : P.heapModel.objectOf P.program ⟨y.method, position⟩ a.ty s.heap = .ok (o, h))
      (found : P.heapModel.objectAt h o = .ok obj)
      (chosen : P.selector.heapContext s.contexts y obj = .ok (c, t)) :
      Justified hand s { s with
        heap := h
        contexts := t
        elements := (s.elements.csObj ⟨c, obj.id⟩).2 }
  | call {s : SolverState P} {e : CallEdge .csCallSite .csMethod} (caused : s.Caused hand e) :
      Justified hand s { s with callGraph := (s.callGraph.addEdge e).2 }

variable {hand : Prop} {s s' : SolverState P}

theorem Justified.changes (justified : Justified hand s s') : Changes s s' := by
  cases justified with
  | quiet change => exact .single change
  | reach sites new _ => exact .single (.reachable sites new)
  | select _ _ => exact .single (.contexts s _)
  | place => exact ((ReflTransGen.single (.heap s _)).tail (.contexts _ _)).tail (.csObj _ _)
  | call _ => exact .single (.callEdge s _)

theorem changes_of_justified (steps : ReflTransGen (Justified hand) s s') : Changes s s' := by
  induction steps with
  | refl => exact .refl
  | tail _ step ih => exact ih.trans step.changes

theorem kept_of_justified (steps : ReflTransGen (Justified hand) s s') : s.Kept s' :=
  kept_of_changes (changes_of_justified steps)

theorem Kept.receives (kept : s.Kept s') {c : ContextId} {v : VarId} {o : CsObjId}
    (receives : s.Receives c v o) : s'.Receives c v o := by
  obtain ⟨p, known, here⟩ := receives
  exact ⟨p, Table.get?_of_prefix kept.pointers known, kept.contains here⟩

theorem Kept.calledOn (kept : s.Kept s') {c : ContextId} {i : InvokeId} {recv : CsObjId}
    (called : s.CalledOn hand c i recv) : s'.CalledOn hand c i recv :=
  called.imp_right fun ⟨v, var, declared, used, receives⟩ =>
    ⟨v, var, declared, used, kept.receives receives⟩

end SolverState

namespace Solve

open SolverState (Justified Receives kept_of_justified)

variable {hand : Prop} {s s' : SolverState P}

/-! ## Elements, graphs and counters -/

theorem pointer_justified (k : PointerKey) : GoesBy (Justified hand) s (pointer k) :=
  .of_ok (pointer_run s k) (.single (.quiet (.pointer s k) rfl rfl
    (ElementStore.objects_pointer s.elements k) rfl rfl rfl))

theorem csMethod_justified (c : ContextId) (m : MethodId) :
    GoesBy (Justified hand) s (csMethod c m) :=
  .of_ok (csMethod_run s c m) (.single (.quiet (.csMethod s ⟨c, m⟩) rfl rfl rfl rfl rfl rfl))

theorem csCallSite_justified (c : ContextId) (i : InvokeId) :
    GoesBy (Justified hand) s (csCallSite c i) :=
  .of_ok (csCallSite_run s c i) (.single (.quiet (.csCallSite s ⟨c, i⟩) rfl rfl rfl rfl rfl rfl))

theorem select_justified {choose : ContextTable → Selection} (offered : P.selector.Offers choose) :
    GoesBy (Justified hand) s (select choose) := by
  have run := select_run s choose
  cases chosen : choose s.contexts with
  | ok selected =>
    obtain ⟨c, t⟩ := selected
    rw [chosen] at run
    exact .of_ok run (.single (.select offered chosen))
  | error r =>
    rw [chosen] at run
    exact .of_outOfRange run

/-! What single operations leave behind when they succeed. -/

theorem select_run_eq_ok {choose : ContextTable → Selection} {c : ContextId}
    (run : select choose s = .ok c s') :
    choose s.contexts = .ok (c, s'.contexts) ∧ s'.heap = s.heap := by
  rw [select_run] at run
  cases chosen : choose s.contexts with
  | ok selected =>
    rw [chosen] at run
    cases run
    exact ⟨rfl, rfl⟩
  | error r =>
    rw [chosen] at run
    cases run

theorem csMethod_run_eq_ok {c : ContextId} {m : MethodId} {x : CsMethodId}
    (run : csMethod c m s = .ok x s') : s'.elements.methods.get? x.index = some ⟨c, m⟩ ∧
      s'.contexts = s.contexts ∧ s'.heap = s.heap := by
  cases run
  exact ⟨Table.get?_intern s.elements.methods ⟨c, m⟩, rfl, rfl⟩

theorem csCallSite_run_eq_ok {c : ContextId} {i : InvokeId} {x : CsCallSiteId}
    (run : csCallSite c i s = .ok x s') : s'.elements.callSites.get? x.index = some ⟨c, i⟩ ∧
      s'.contexts = s.contexts ∧ s'.heap = s.heap := by
  cases run
  exact ⟨Table.get?_intern s.elements.callSites ⟨c, i⟩, rfl, rfl⟩

theorem schedule_justified (p : PointerId) (objects : ObjectSet) :
    GoesBy (Justified hand) s (schedule p objects) :=
  .of_ok (schedule_run s p objects)
    (.single (.quiet (.schedule s ⟨p, objects⟩) rfl rfl rfl rfl rfl rfl))

theorem addCallEdge_justified {e : CallEdge .csCallSite .csMethod} (caused : s.Caused hand e) :
    GoesBy (Justified hand) s (addCallEdge e) :=
  .of_ok (addCallEdge_run s e) (.single (.call caused))

theorem countUnresolved_justified : GoesBy (Justified hand) s countUnresolved :=
  .of_ok (countUnresolved_run s) (.single (.quiet (.unresolved s) rfl rfl rfl rfl rfl rfl))

theorem addFlow_justified (source target : PointerId) :
    GoesBy (Justified hand) s (addFlow source target) := by
  have run := addFlow_run s source target
  cases known : s.flow.hasEdge ⟨source, target⟩ with
  | true =>
    rw [if_pos known] at run
    exact .of_ok run .refl
  | false =>
    rw [if_neg (by simp [known])] at run
    cases found : s.elements.pointsToSet source with
    | error r =>
      rw [found] at run
      exact .of_outOfRange run
    | ok objects =>
      rw [found] at run
      exact .of_ok run (.single (.quiet (.flow known found) rfl rfl rfl rfl rfl rfl))

theorem propagate_justified (p : PointerId) (objects : ObjectSet) :
    GoesBy (Justified hand) s (propagate p objects) := by
  have run := propagate_run s p objects
  cases found : s.elements.pointsToSet p with
  | error r =>
    rw [found] at run
    exact .of_outOfRange run
  | ok known =>
    rw [found] at run
    refine .of_ok run (.single (.quiet (.propagate objects found) ?_ ?_ ?_ ?_ ?_ ?_)) <;>
    · unfold SolverState.propagated
      split <;> rfl

theorem flow_justified (source target : PointerKey) :
    GoesBy (Justified hand) s (flow source target) :=
  (pointer_justified source).bind fun _ _ _ _ => (pointer_justified target).bind fun _ _ _ _ =>
    (addFlow_justified _ _).bind fun _ _ _ _ => .pure ()

/-! ## Accesses and wiring -/

theorem processAccesses_justified (c : ContextId) (v : VarId) (o : CsObjId) :
    GoesBy (Justified hand) s (processAccesses c v o) := by
  refine .lookup fun var _ => ?_
  refine (GoesBy.forM_each fun _ _ => flow_justified _ _).bind fun _ _ _ _ => ?_
  refine (GoesBy.forM_each fun _ _ => flow_justified _ _).bind fun _ _ _ _ => ?_
  refine (GoesBy.forM_each fun _ _ => flow_justified _ _).bind fun _ _ _ _ => ?_
  exact .forM_each fun _ _ => flow_justified _ _

theorem checkArity_justified (call : Invoke) (callee : MethodId) :
    GoesBy (Justified hand) s (checkArity call callee) := by
  refine .lookup fun method _ => ?_
  dsimp only
  split
  · exact .lookup fun _ _ => .lookup fun _ _ => .throw
  · exact .pure ()

theorem wireCall_justified (caller : ContextId) (call : Invoke) (calleeContext : ContextId)
    (callee : MethodId) :
    GoesBy (Justified hand) s (wireCall caller call calleeContext callee) := by
  refine .lookup fun method _ => ?_
  refine (GoesBy.forM_each fun _ _ => flow_justified _ _).bind fun _ _ _ _ => ?_
  cases call.result with
  | none => exact .pure ()
  | some result =>
    refine (pointer_justified _).bind fun target _ _ _ => .forM_each fun v _ => ?_
    exact (pointer_justified _).bind fun _ _ _ _ => (addFlow_justified _ _).bind fun _ _ _ _ => .pure ()

/-! ## Static calls and reachable methods -/

theorem callStatic_justified {c : ContextId} {i : InvokeId} {call : Invoke}
    (described : P.program.invokeAt i = .ok call) (kind : call.kind = .static) :
    GoesBy (Justified hand) s (callStatic c i call) := by
  refine .lookup fun target _ => ?_
  cases target with
  | none => exact countUnresolved_justified.bind fun _ _ _ _ => .pure none
  | some callee =>
    refine (csCallSite_justified c i).bind fun site s₁ run₁ _ => ?_
    refine (select_justified (.call _ _)).bind fun c' s₂ run₂ steps₂ => ?_
    refine (checkArity_justified call callee).bind fun _ s₃ run₃ _ => ?_
    refine (csMethod_justified c' callee).bind fun m s₄ run₄ steps₄ => ?_
    obtain ⟨point, -, -⟩ := csCallSite_run_eq_ok run₁
    obtain ⟨chosen, -⟩ := select_run_eq_ok run₂
    obtain rfl := checkArity_ensures call callee () s₃ run₃
    obtain ⟨known, contexts, -⟩ := csMethod_run_eq_ok run₄
    have kept := kept_of_justified (steps₂.trans steps₄)
    have caused : s₄.Caused hand ⟨.static, site, m⟩ :=
      .static (Table.get?_of_prefix kept.callSites point) described kind known (contexts.symm ▸ chosen)
    refine (addCallEdge_justified caused).bind fun isNew _ _ _ => ?_
    cases isNew with
    | false => exact .pure none
    | true => exact (wireCall_justified c call c' callee).bind fun _ _ _ _ => .pure _

end Solve

namespace SolverState

/-- A method under a context can run. -/
def Runs (s : SolverState P) (y : CsMethod) : Prop :=
  ∃ m ∈ s.callGraph.reachable.toList, s.elements.methods.get? m.index = some y

theorem Kept.runs {s s' : SolverState P} (kept : s.Kept s') {y : CsMethod} (runs : s.Runs y) :
    s'.Runs y := by
  obtain ⟨m, reachable, known⟩ := runs
  exact ⟨m, kept.reachable.subset reachable, Table.get?_of_prefix kept.methods known⟩

end SolverState

namespace Solve

open SolverState (Justified Receives Runs kept_of_justified)

variable {hand : Prop} {s s' : SolverState P}

/-- An allocation finds or makes its object and picks a heap context, or comes to a reference out of
range. -/
theorem allocate_run (y : CsMethod) (position : Nat) (lhs : VarId) (ty : Ty) :
    (∃ r s', allocate y position lhs ty s = .error (.outOfRange r) s') ∨
      ∃ o h obj c t, P.heapModel.objectOf P.program ⟨y.method, position⟩ ty s.heap = .ok (o, h) ∧
        P.heapModel.objectAt h o = .ok obj ∧
        P.selector.heapContext s.contexts y obj = .ok (c, t) ∧
        allocate y position lhs ty s = (do
          let p ← pointer (.var y.context lhs)
          schedule p (.singleton ⟨(s.elements.objects.intern ⟨c, obj.id⟩).1⟩) : Solve P Unit)
          { s with heap := h, contexts := t, elements := (s.elements.csObj ⟨c, obj.id⟩).2 } := by
  simp only [allocate, bind_run, objectOf_run]
  cases made : P.heapModel.objectOf P.program ⟨y.method, position⟩ ty s.heap with
  | error r => exact Or.inl ⟨r, _, rfl⟩
  | ok place =>
    obtain ⟨o, h⟩ := place
    cases found : P.heapModel.objectAt h o with
    | error r =>
      simp only [found]
      exact Or.inl ⟨r, _, rfl⟩
    | ok obj =>
      simp only [found, select_run]
      cases chosen : P.selector.heapContext s.contexts y obj with
      | error r => exact Or.inl ⟨r, _, rfl⟩
      | ok selected => exact Or.inr ⟨o, h, obj, selected.1, selected.2, rfl, found, chosen, rfl⟩

theorem allocate_justified {y : CsMethod} {position : Nat} {lhs : VarId} {ty : Ty}
    (runs : s.Runs y) (stands : P.program.stmt? y.method position = some (.new lhs ty)) :
    GoesBy (Justified hand) s (allocate y position lhs ty) := by
  obtain ⟨m, reachable, known⟩ := runs
  obtain ⟨method, declared, -⟩ := Option.bind_eq_some_iff.1 stands
  have allocates : P.program.allocation? ⟨y.method, position⟩ = some ⟨ty, method.owner⟩ :=
    Program.allocation?_eq_some_iff.2 ⟨method, lhs, declared, stands, rfl⟩
  rcases allocate_run y position lhs ty with
    ⟨r, s', run⟩ | ⟨o, h, obj, c, t, made, found, chosen, run⟩
  · exact .of_outOfRange run
  · refine .of_run run (.single (.place reachable known allocates made found chosen)) ?_
    exact (pointer_justified _).bind fun _ _ _ _ => schedule_justified _ _

theorem seedStmt_justified {y : CsMethod} {position : Nat} {stmt : Stmt} (runs : s.Runs y)
    (stands : P.program.stmt? y.method position = some stmt) :
    GoesBy (Justified hand) s (seedStmt y position stmt) := by
  have flows : ∀ source target, GoesBy (Justified hand) s
      (do flow source target; return none : Solve P (Option CsMethodId)) :=
    fun source target => (flow_justified source target).bind fun _ _ _ _ => .pure none
  unfold seedStmt
  split
  · exact (allocate_justified runs stands).bind fun _ _ _ _ => .pure none
  · exact flows _ _
  · exact flows _ _
  · exact flows _ _
  · refine .lookup fun call described => ?_
    split
    · rename_i kind
      exact callStatic_justified described kind
    · exact .pure none
  · exact .pure none

theorem seedBody_justified {y : CsMethod} (stmts : List Stmt) {position : Nat}
    {callees : List CsMethodId} (runs : s.Runs y) (stand : ∀ j stmt, stmts[j]? = some stmt →
      P.program.stmt? y.method (position + j) = some stmt) :
    GoesBy (Justified hand) s (seedBody y position callees stmts) := by
  induction stmts generalizing s position callees with
  | nil => exact .pure callees
  | cons stmt stmts ih =>
    refine (seedStmt_justified runs (stand 0 stmt rfl)).bind fun called s₁ _ steps => ?_
    refine ih ((kept_of_justified steps).runs runs) fun j stmt' listed => ?_
    rw [Nat.add_assoc, Nat.add_comm 1 j]
    exact stand (j + 1) stmt' listed

theorem seedMethod_justified {y : CsMethod} (runs : s.Runs y) :
    GoesBy (Justified hand) s (seedMethod y) := by
  refine .lookup fun method found => seedBody_justified _ runs fun j stmt listed => ?_
  rw [Nat.zero_add]
  rw [Array.getElem?_toList] at listed
  exact Program.stmt?_eq_some_iff.2 ⟨method, fetch_eq_ok_iff.1 found, listed⟩

/-- The call sites that have been asked for are known. -/
theorem mem_callSites_of_mapM {c : ContextId} {invokes : List InvokeId} {sites : List CsCallSiteId}
    (run : (invokes.mapM (csCallSite c) : Solve P _) s = .ok sites s') :
    ∀ i ∈ invokes, ⟨c, i⟩ ∈ s'.elements.callSites.toList := by
  induction invokes generalizing s sites with
  | nil => simp
  | cons i invokes ih =>
    rw [List.mapM_cons] at run
    obtain ⟨j, s₁, first, rest⟩ := bind_run_eq_ok run
    obtain ⟨js, s₂, tail, last⟩ := bind_run_eq_ok rest
    cases last
    refine List.forall_mem_cons.2 ⟨?_, ih tail⟩
    have steps : ReflTransGen (Justified False) s₁ s' :=
      (GoesBy.mapM fun i _ => csCallSite_justified c i).ok tail
    obtain ⟨known, -⟩ := csCallSite_run_eq_ok first
    exact (kept_of_justified steps).callSites.subset (Table.mem_toList_of_get? known)

theorem visit_justified (m : CsMethodId) : GoesBy (Justified hand) s (visit m) := by
  rw [visit_eq]
  refine .get (.lookup fun y found => .lookup fun invokes listed => ?_)
  refine (GoesBy.mapM fun i _ => csCallSite_justified y.context i).bind fun sites s₁ asked steps => ?_
  have known : s₁.elements.methods.get? m.index = some y :=
    Table.get?_of_prefix (kept_of_justified steps).methods (fetch_eq_ok_iff.1 found)
  have run := seedNew_run s₁ m y sites
  cases reached : s₁.callGraph.isReachable m with
  | true =>
    rw [if_pos reached] at run
    exact .of_ok run .refl
  | false =>
    rw [if_neg (by simp [reached])] at run
    refine .of_run run
      (.single (.reach sites reached ⟨y, invokes, known, listed, mem_callSites_of_mapM asked⟩)) ?_
    exact seedMethod_justified ⟨m, CallGraph.mem_reachable_addReachable.2 (Or.inr rfl), known⟩

theorem visitAll_justified (rounds : Nat) (stack : List CsMethodId) :
    GoesBy (Justified hand) s (visitAll rounds stack) := by
  induction rounds generalizing stack s with
  | zero =>
    cases stack with
    | nil => exact .pure ()
    | cons m rest => exact .throw_outOfRounds
  | succ rounds ih =>
    cases stack with
    | nil => exact .pure ()
    | cons m rest => exact (visit_justified m).bind fun callees _ _ _ => ih (callees ++ rest)

theorem addReachable_justified (m : CsMethodId) : GoesBy (Justified hand) s (addReachable m) :=
  visitAll_justified P.limit [m]

/-! ## Calls on objects -/

theorem callOn_justified {c : ContextId} {i : InvokeId} {call : Invoke} {recv : CsObjId}
    {recvObj : CsObj} {obj : Obj} {callee : MethodId}
    (described : P.program.invokeAt i = .ok call) (kind : call.kind ≠ .static)
    (object : s.elements.objects.get? recv.index = some recvObj)
    (found : P.heapModel.objectAt s.heap recvObj.obj = .ok obj)
    (called : s.CalledOn hand c i recv) :
    GoesBy (Justified hand) s (callOn c i call recv recvObj obj callee) := by
  refine (select_justified (.receiver _ _ _ _)).bind fun c' s₁ run₁ steps₁ => ?_
  obtain ⟨chosen, heap₁⟩ := select_run_eq_ok run₁
  refine .lookup fun method _ => ?_
  cases method.receiver with
  | none => exact .lookup fun _ _ => .throw
  | some self =>
    refine (checkArity_justified call callee).bind fun _ s₂ run₂ _ => ?_
    obtain rfl := checkArity_ensures call callee () s₂ run₂
    refine (pointer_justified _).bind fun p s₃ run₃ steps₃ => ?_
    refine (schedule_justified p _).bind fun _ s₄ run₄ steps₄ => ?_
    refine (csCallSite_justified c i).bind fun site s₅ run₅ steps₅ => ?_
    refine (csMethod_justified c' callee).bind fun m s₆ run₆ steps₆ => ?_
    have kept := kept_of_justified (((steps₁.trans steps₃).trans steps₄).trans (steps₅.trans steps₆))
    cases run₃
    cases run₄
    obtain ⟨point, contexts₅, heap₅⟩ := csCallSite_run_eq_ok run₅
    obtain ⟨known, contexts₆, heap₆⟩ := csMethod_run_eq_ok run₆
    have contexts : s₆.contexts = s₂.contexts := contexts₆.trans contexts₅
    have heap : s₆.heap = s.heap := (heap₆.trans heap₅).trans heap₁
    have point' := Table.get?_of_prefix (kept_of_justified steps₆).callSites point
    have object' := Table.get?_of_prefix kept.csObjects object
    have caused : s₆.Caused hand ⟨call.kind, site, m⟩ :=
      .onObject point' described kind known object' (heap.symm ▸ found) (contexts.symm ▸ chosen)
        (kept.calledOn called)
    refine (addCallEdge_justified caused).bind fun isNew _ _ _ => ?_
    cases isNew with
    | false => exact .pure ()
    | true => exact (addReachable_justified m).bind fun _ _ _ _ => wireCall_justified c call c' callee

theorem resolveCall_justified {c : ContextId} {recv : CsObjId} {recvObj : CsObj} {i : InvokeId}
    (object : s.elements.objects.get? recv.index = some recvObj)
    (called : s.CalledOn hand c i recv) :
    GoesBy (Justified hand) s (resolveCall c recv recvObj i) := by
  refine .lookup fun call described => .get (.lookup fun obj found => ?_)
  split
  · exact .pure ()
  · rename_i kind
    refine .lookup fun target _ => ?_
    cases target with
    | none => exact countUnresolved_justified
    | some callee => exact callOn_justified described kind object found called

theorem processCall_justified {c : ContextId} {v : VarId} {recv : CsObjId}
    (held : hand ∨ s.Receives c v recv) : GoesBy (Justified hand) s (processCall c v recv) := by
  refine .get (.lookup fun recvObj found => .lookup fun var declared => ?_)
  refine .forM (fun s => s.elements.objects.get? recv.index = some recvObj ∧
    (hand ∨ s.Receives c v recv)) ?_ ?_ ⟨fetch_eq_ok_iff.1 found, held⟩
  · rintro s s' steps ⟨object, held⟩
    have kept := kept_of_justified steps
    exact ⟨Table.get?_of_prefix kept.csObjects object, held.imp_right kept.receives⟩
  · rintro i used s ⟨object, held⟩
    exact resolveCall_justified object
      (held.imp_right fun receives => ⟨v, var, declared, used, receives⟩)

/-! ## Steps and runs -/

theorem processObject_justified {c : ContextId} {v : VarId} {o : CsObjId}
    (receives : s.Receives c v o) : GoesBy (Justified hand) s (processObject c v o) :=
  (processAccesses_justified c v o).bind fun _ _ _ steps =>
    processCall_justified (Or.inr ((kept_of_justified steps).receives receives))

/-- The reaction to objects that a location has. -/
theorem react_justified {p : PointerId} {delta : ObjectSet} (here : ∀ o ∈ delta, s.Contains p o) :
    GoesBy (Justified hand) s (react p delta) := by
  unfold react
  split
  · exact .pure true
  · refine .get (.lookup fun key found => ?_)
    split
    · rename_i c v
      have receives : ∀ o ∈ delta.toList, s.Receives c v o :=
        fun o mem => ⟨p, fetch_eq_ok_iff.1 found, here o mem⟩
      have each : GoesBy (Justified hand) s (delta.toList.forM (processObject c v)) :=
        .forM (fun s => ∀ o ∈ delta.toList, s.Receives c v o)
          (fun _ _ steps known o mem => (kept_of_justified steps).receives (known o mem))
          (fun o mem _ known => processObject_justified (known o mem)) receives
      exact each.bind fun _ _ _ _ => .pure true
    · exact .pure true

theorem step_justified : GoesBy (Justified hand) s step := by
  have run := step_run s
  cases head : s.worklist.poll with
  | none =>
    rw [head] at run
    exact .of_ok run .refl
  | some entry =>
    obtain ⟨e, rest⟩ := entry
    cases found : s.elements.pointsToSet e.target with
    | error r =>
      simp only [head, found] at run
      exact .of_outOfRange run
    | ok known =>
      simp only [head, found] at run
      refine .of_run run (.single (.quiet (.deliver head found) ?_ ?_ ?_ ?_ ?_ ?_))
        (react_justified fun o mem => ?_)
      case refine_7 =>
        exact (SolverState.contains_propagated (s := s.taken rest) found).2
          (Or.inr ⟨rfl, (IdSet.mem_fresh.1 mem).1⟩)
      all_goals
        unfold SolverState.delivered SolverState.propagated
        split <;> rfl

theorem stepAll_justified (rounds : Nat) : GoesBy (Justified hand) s (stepAll rounds) := by
  induction rounds generalizing s with
  | zero => exact .throw_outOfRounds
  | succ rounds ih =>
    refine step_justified.bind fun again s' _ _ => ?_
    cases again with
    | false => exact .pure ()
    | true => exact ih

end Solve

/-! ## Starts -/

namespace SolverState

/-- A justified change or a new entry. -/
inductive Begun (hand : Prop) : SolverState P → SolverState P → Prop where
  | justified {s s' : SolverState P} (step : Justified hand s s') : Begun hand s s'
  | entry (s : SolverState P) (m : CsMethodId) :
      Begun hand s { s with callGraph := s.callGraph.addEntry m }

variable {hand : Prop} {s s' : SolverState P}

theorem Begun.changes (begun : Begun hand s s') : Changes s s' := by
  cases begun with
  | justified step => exact step.changes
  | entry m => exact .single (.entry s m)

theorem changes_of_begun (steps : ReflTransGen (Begun hand) s s') : Changes s s' := by
  induction steps with
  | refl => exact .refl
  | tail _ step ih => exact ih.trans step.changes

end SolverState

namespace Solve

open SolverState (Begun Justified)

variable {hand : Prop} {s s' : SolverState P}

theorem GoesBy.begun {α : Type} {x : Solve P α} (goes : GoesBy (Justified hand) s x) :
    GoesBy (Begun hand) s x :=
  goes.mono fun _ _ => .justified

theorem enter_begun (m : MethodId) : GoesBy (Begun hand) s (enter m) := by
  refine (csMethod_justified _ m).begun.bind fun entry s₁ _ _ => ?_
  exact (GoesBy.modify (.entry s₁ entry)).bind fun _ _ _ _ => (addReachable_justified entry).begun

theorem start_begun : GoesBy (Begun hand) s start := by
  refine .get ?_
  split
  · exact .pure ()
  · split
    · exact .throw
    · have marked : Justified hand s { s with initialized := true } :=
        .quiet (.initialized s) rfl rfl rfl rfl rfl rfl
      exact (GoesBy.modify (.justified marked)).bind fun _ _ _ _ =>
        .forM_each fun m _ => enter_begun m

theorem recordSizes_justified : GoesBy (Justified hand) s recordSizes :=
  .of_ok (recordSizes_run s) (.single (.quiet (.recorded s) rfl rfl rfl rfl rfl rfl))

theorem solve_begun : GoesBy (Begun hand) s solve :=
  start_begun.bind fun _ _ _ _ => (stepAll_justified P.limit).begun.bind fun _ _ _ _ =>
    recordSizes_justified.begun

end Solve

end PointsTo
