import PointsTo.Program.Check
import PointsTo.Proofs.Solver.Growth

/-!
# Operations that leave the call graph alone

Most operations of the analysis ask for locations and flow edges and leave everything else to others:
no method becomes reachable, no call is added, no object arrives anywhere and no call is counted.
Which locations they ask for is given with each of them.
-/

namespace PointsTo

variable {P : Problem}

namespace Solve

/-! ## Operations that succeed -/

section Rules

variable {α β : Type} {s s' : SolverState P} {x : Solve P α} {f : α → Solve P β}
  {post : α → SolverState P → Prop} {post' : β → SolverState P → Prop}

/-- If an operation succeeds, its result and the state after it are as stated. -/
def Ensures (s : SolverState P) (x : Solve P α) (post : α → SolverState P → Prop) : Prop :=
  ∀ a s', x s = .ok a s' → post a s'

theorem Ensures.of_ok {a : α} (run : x s = .ok a s') (result : post a s') : Ensures s x post := by
  intro a' s'' run'
  rw [run] at run'
  cases run'
  exact result

theorem Ensures.of_error {e : Stop} (run : x s = .error e s') : Ensures s x post := by
  intro a s'' run'
  rw [run] at run'
  cases run'

/-- An operation that goes on as another one does from another state. -/
theorem Ensures.of_run {y : Solve P α} (run : x s = y s') (rest : Ensures s' y post) :
    Ensures s x post := by
  intro a s'' run'
  exact rest a s'' (run ▸ run')

theorem Ensures.bind (first : Ensures s x post)
    (rest : ∀ a s', post a s' → Ensures s' (f a) post') : Ensures s (x >>= f) post' := by
  intro b s'' run
  obtain ⟨a, s', run₁, run₂⟩ := bind_run_eq_ok run
  exact rest a s' (first a s' run₁) b s'' run₂

/-- An operation after one that is known to succeed. -/
theorem Ensures.then {a : α} (run : x s = .ok a s') (rest : Ensures s' (f a) post') :
    Ensures s (x >>= f) post' := by
  refine .of_run ?_ rest
  rw [bind_run, run]

theorem Ensures.imp {post₂ : α → SolverState P → Prop} (ensures : Ensures s x post)
    (weaker : ∀ a s', post a s' → post₂ a s') : Ensures s x post₂ :=
  fun a s' run => weaker a s' (ensures a s' run)

theorem Ensures.pure {a : α} (result : post a s) : Ensures s (Pure.pure a : Solve P α) post :=
  .of_ok rfl result

theorem Ensures.throw {e : Stop} : Ensures s (MonadExcept.throw e : Solve P α) post :=
  .of_error rfl

theorem Ensures.lookup {r : Except OutOfRange α} (rest : ∀ a, r = .ok a → Ensures s (f a) post') :
    Ensures s (liftM r >>= f : Solve P β) post' := by
  intro b s' run
  obtain ⟨a, s₁, first, second⟩ := bind_run_eq_ok run
  obtain ⟨found, rfl⟩ := lookup_run_eq_ok first
  exact rest a found b s' second

theorem Ensures.get {f : SolverState P → Solve P β} (rest : Ensures s (f s) post') :
    Ensures s (MonadState.get >>= f : Solve P β) post' :=
  rest

/-- What each operation of a loop keeps, the loop keeps. -/
theorem Ensures.forM {f : α → Solve P Unit} {l : List α} {inv : SolverState P → Prop}
    (each : ∀ a ∈ l, ∀ s, inv s → Ensures s (f a) fun _ => inv) (start : inv s) :
    Ensures s (l.forM f) fun _ => inv := by
  induction l generalizing s with
  | nil => exact .pure start
  | cons a l ih =>
    refine (each a List.mem_cons_self s start).bind fun _ s₁ kept => ?_
    exact ih (fun b mem => each b (List.mem_cons_of_mem a mem)) kept

/-- What each operation of a loop brings about lasts to the end of the loop. -/
theorem Ensures.forM_each {f : α → Solve P Unit} {l : List α} {inv : SolverState P → Prop}
    {post : α → SolverState P → Prop}
    (each : ∀ a ∈ l, ∀ s, inv s → Ensures s (f a) fun _ s' =>
      inv s' ∧ post a s' ∧ ∀ b, post b s → post b s') (start : inv s) :
    Ensures s (l.forM f) fun _ s' =>
      inv s' ∧ (∀ a ∈ l, post a s') ∧ ∀ b, post b s → post b s' := by
  induction l generalizing s with
  | nil => exact .pure ⟨start, by simp, fun _ => id⟩
  | cons a l ih =>
    refine (each a List.mem_cons_self s start).bind fun _ s₁ ⟨kept, result, lasts⟩ => ?_
    refine (ih (fun b mem => each b (List.mem_cons_of_mem a mem)) kept).imp
      fun _ s₂ ⟨kept', results, lasts'⟩ => ⟨kept', ?_, fun b held => lasts' b (lasts b held)⟩
    exact List.forall_mem_cons.2 ⟨lasts' a result, results⟩

theorem Ensures.mapM {f : α → Solve P β} {l : List α} {inv : SolverState P → Prop}
    (each : ∀ a ∈ l, ∀ s, inv s → Ensures s (f a) fun _ => inv) (start : inv s) :
    Ensures s (l.mapM f) fun _ => inv := by
  induction l generalizing s with
  | nil => exact .pure start
  | cons a l ih =>
    rw [List.mapM_cons]
    refine (each a List.mem_cons_self s start).bind fun b s₁ kept => ?_
    exact (ih (fun b mem => each b (List.mem_cons_of_mem a mem)) kept).bind fun _ _ kept' => .pure kept'

end Rules

end Solve

namespace SolverState

/-! ## Quiet changes -/

/-- A state has grown by locations that were asked for, and by things that belong to no method and
no call. -/
structure Quiet (Asked : PointerKey → Prop) (s s' : SolverState P) : Prop where
  kept : s.Kept s'
  methods : s'.elements.methods = s.elements.methods
  callGraph : s'.callGraph = s.callGraph
  pointers : ∀ k ∈ s'.elements.pointers.toList, k ∈ s.elements.pointers.toList ∨ Asked k
  contains : ∀ {p : PointerId} {o : CsObjId}, s'.Contains p o → s.Contains p o
  unresolved : s'.stats.unresolvedCalls = s.stats.unresolvedCalls

variable {Asked : PointerKey → Prop} {s s' s'' : SolverState P}

theorem Quiet.refl (s : SolverState P) : Quiet Asked s s :=
  ⟨.refl s, rfl, rfl, fun _ => Or.inl, id, rfl⟩

theorem Quiet.trans (first : Quiet Asked s s') (second : Quiet Asked s' s'') :
    Quiet Asked s s'' where
  kept := first.kept.trans second.kept
  methods := second.methods.trans first.methods
  callGraph := second.callGraph.trans first.callGraph
  pointers k mem := (second.pointers k mem).elim (first.pointers k) Or.inr
  contains here := first.contains (second.contains here)
  unresolved := second.unresolved.trans first.unresolved

/-- A change that asks for no location. -/
theorem Quiet.of_change (change : Change s s') (methods : s'.elements.methods = s.elements.methods)
    (callGraph : s'.callGraph = s.callGraph) (pointers : s'.elements.pointers = s.elements.pointers)
    (contains : ∀ {p : PointerId} {o : CsObjId}, s'.Contains p o → s.Contains p o)
    (unresolved : s'.stats.unresolvedCalls = s.stats.unresolvedCalls) : Quiet Asked s s' := by
  refine ⟨kept_of_change change, methods, callGraph, ?_, contains, unresolved⟩
  rw [pointers]
  exact fun _ => Or.inl

end SolverState

namespace Solve

open SolverState (Quiet kept_of_change)

variable {s : SolverState P} (Asked : PointerKey → Prop)

/-! ## Elements and contexts -/

variable {Asked} in
theorem pointer_quiet {k : PointerKey} (asked : Asked k) :
    Ensures s (pointer k) fun _ => Quiet Asked s := by
  refine .of_ok (pointer_run s k) ⟨kept_of_change (.pointer s k),
    ElementStore.methods_pointer s.elements k, rfl, fun k' mem => ?_,
    ElementStore.contains_pointer.1, rfl⟩
  rw [ElementStore.pointers_pointer] at mem
  rcases Table.mem_toList_intern.1 mem with old | rfl
  · exact Or.inl old
  · exact Or.inr asked

theorem csObj_quiet (c : ContextId) (o : ObjId) :
    Ensures s (csObj c o) fun _ => Quiet Asked s :=
  .of_ok (csObj_run s c o) (.of_change (.csObj s ⟨c, o⟩) rfl rfl rfl id rfl)

theorem csCallSite_quiet (c : ContextId) (i : InvokeId) :
    Ensures s (csCallSite c i) fun j s' =>
      Quiet Asked s s' ∧ s'.elements.callSites.get? j.index = some ⟨c, i⟩ :=
  .of_ok (csCallSite_run s c i) ⟨.of_change (.csCallSite s ⟨c, i⟩) rfl rfl rfl id rfl,
    Table.get?_intern s.elements.callSites ⟨c, i⟩⟩

theorem select_quiet (choose : ContextTable → Selection) :
    Ensures s (select choose) fun _ => Quiet Asked s := by
  have run := select_run s choose
  cases chosen : choose s.contexts with
  | error r =>
    rw [chosen] at run
    exact .of_error run
  | ok found =>
    obtain ⟨c, t⟩ := found
    rw [chosen] at run
    exact .of_ok run (.of_change (.contexts s t) rfl rfl rfl id rfl)

theorem objectOf_quiet (site : AllocSite) (ty : Ty) :
    Ensures s (objectOf site ty) fun _ => Quiet Asked s := by
  have run := objectOf_run s site ty
  cases made : P.heapModel.objectOf P.program site ty s.heap with
  | error r =>
    rw [made] at run
    exact .of_error run
  | ok found =>
    obtain ⟨o, heap⟩ := found
    simp only [made] at run
    cases lookup : P.heapModel.objectAt heap o with
    | error r =>
      rw [lookup] at run
      exact .of_error run
    | ok obj =>
      rw [lookup] at run
      exact .of_ok run (.of_change (.heap s heap) rfl rfl rfl id rfl)

/-! ## Flow edges -/

theorem schedule_quiet (p : PointerId) (objects : ObjectSet) :
    Ensures s (schedule p objects) fun _ => Quiet Asked s :=
  .of_ok (schedule_run s p objects) (.of_change (.schedule s ⟨p, objects⟩) rfl rfl rfl id rfl)

theorem addFlow_quiet (source target : PointerId) :
    Ensures s (addFlow source target) fun _ => Quiet Asked s := by
  have run := addFlow_run s source target
  cases known : s.flow.hasEdge ⟨source, target⟩ with
  | true =>
    rw [if_pos known] at run
    exact .of_ok run (.refl s)
  | false =>
    rw [if_neg (by simp [known])] at run
    cases found : s.elements.pointsToSet source with
    | error r =>
      rw [found] at run
      exact .of_error run
    | ok objects =>
      rw [found] at run
      exact .of_ok run (.of_change (.flow known found) rfl rfl rfl id rfl)

variable {Asked} in
theorem flow_quiet {k k' : PointerKey} (source : Asked k) (target : Asked k') :
    Ensures s (flow k k') fun _ => Quiet Asked s := by
  refine (pointer_quiet source).bind fun p s₁ quiet₁ => ?_
  refine (pointer_quiet target).bind fun p' s₂ quiet₂ => ?_
  exact (addFlow_quiet _ p p').bind fun _ s₃ quiet₃ => .pure ((quiet₁.trans quiet₂).trans quiet₃)

/-- Quiet operations one after another. -/
theorem forM_quiet {α : Type} {f : α → Solve P Unit} {l : List α}
    (each : ∀ a ∈ l, ∀ s, Ensures s (f a) fun _ => Quiet Asked s) :
    Ensures s (l.forM f) fun _ => Quiet Asked s :=
  .forM (fun a mem s' quiet => (each a mem s').imp fun _ _ => quiet.trans) (.refl s)

/-! ## Accesses, allocations and wiring -/

variable {Asked}

/-- Accesses ask for the variables that they read and write. -/
theorem processAccesses_quiet {c : ContextId} {v : VarId} {x : CsObjId}
    (fields : ∀ f, Asked (.instanceField x f)) (array : Asked (.arrayIndex x))
    (used : ∀ var, P.program.varAt v = .ok var → ∀ w,
      (∃ f, (f, w) ∈ var.uses.storeFields ∨ (f, w) ∈ var.uses.loadFields) ∨
        w ∈ var.uses.storeArrays ∨ w ∈ var.uses.loadArrays → Asked (.var c w)) :
    Ensures s (processAccesses c v x) fun _ => Quiet Asked s := by
  refine .lookup fun var declared => ?_
  have asked := used var declared
  refine (forM_quiet Asked fun e mem s' => ?_).bind fun _ s₁ quiet₁ => ?_
  · exact flow_quiet (asked e.2 (Or.inl ⟨e.1, Or.inl mem⟩)) (fields e.1)
  refine (forM_quiet Asked fun e mem s' => ?_).bind fun _ s₂ quiet₂ => ?_
  · exact flow_quiet (fields e.1) (asked e.2 (Or.inl ⟨e.1, Or.inr mem⟩))
  refine (forM_quiet Asked fun w mem s' => ?_).bind fun _ s₃ quiet₃ => ?_
  · exact flow_quiet (asked w (Or.inr (Or.inl mem))) array
  refine (forM_quiet Asked fun w mem s' => ?_).imp fun _ s₄ quiet₄ => ?_
  · exact flow_quiet array (asked w (Or.inr (Or.inr mem)))
  exact ((quiet₁.trans quiet₂).trans quiet₃).trans quiet₄

theorem allocate_quiet {m : CsMethod} {position : Nat} {lhs : VarId} {ty : Ty}
    (asked : Asked (.var m.context lhs)) :
    Ensures s (allocate m position lhs ty) fun _ => Quiet Asked s := by
  refine (objectOf_quiet Asked ⟨m.method, position⟩ ty).bind fun obj s₁ quiet₁ => ?_
  refine (select_quiet Asked fun t => P.selector.heapContext t m obj).bind fun c s₂ quiet₂ => ?_
  refine (csObj_quiet Asked c obj.id).bind fun o s₃ quiet₃ => ?_
  refine (pointer_quiet asked).bind fun p s₄ quiet₄ => ?_
  refine (schedule_quiet Asked p (.singleton o)).imp fun _ s₅ quiet₅ => ?_
  exact (((quiet₁.trans quiet₂).trans quiet₃).trans quiet₄).trans quiet₅

theorem checkArity_ensures (call : Invoke) (callee : MethodId) :
    Ensures s (checkArity call callee) fun _ s' => s' = s := by
  refine .lookup fun method _ => ?_
  dsimp only
  split
  · exact .lookup fun _ _ => .lookup fun _ _ => .throw
  · exact .pure rfl

/-- A call asks for its own variables, and for the parameters and returned variables of its callee. -/
theorem wireCall_quiet {c c' : ContextId} {call : Invoke} {callee : MethodId}
    (own : ∀ v ∈ call.vars, Asked (.var c v))
    (theirs : ∀ method, P.program.methodAt callee = .ok method →
      ∀ v, v ∈ method.params ∨ v ∈ method.returned → Asked (.var c' v)) :
    Ensures s (wireCall c call c' callee) fun _ => Quiet Asked s := by
  refine .lookup fun method declared => ?_
  have asked := theirs method declared
  refine (forM_quiet Asked fun e mem s' => ?_).bind fun _ s₁ quiet₁ => ?_
  · obtain ⟨arg, param⟩ := List.of_mem_zip mem
    exact flow_quiet (own e.1 (by simp [Invoke.vars, arg])) (asked e.2 (Or.inl param))
  cases assigned : call.result with
  | none => exact .pure quiet₁
  | some target =>
    refine (pointer_quiet (own target (by simp [Invoke.vars, assigned]))).bind fun p s₂ quiet₂ => ?_
    refine (forM_quiet Asked fun v mem s' => ?_).imp fun _ s₃ quiet₃ =>
      (quiet₁.trans quiet₂).trans quiet₃
    refine (pointer_quiet (asked v (Or.inr mem))).bind fun p' s₃ quiet₃ => ?_
    exact (addFlow_quiet _ p' p).bind fun _ s₄ quiet₄ => .pure (quiet₃.trans quiet₄)

end Solve

end PointsTo
