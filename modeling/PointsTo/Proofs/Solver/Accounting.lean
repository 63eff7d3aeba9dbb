import PointsTo.Proofs.Counting
import PointsTo.Proofs.Solver.Linking

/-!
# Counting calls without a target

A static call without a target is counted once, when the body that it stands in is seeded, and a call
on an object when the object is new to the receiver variable. What an operation counts is given with
the methods that it visits, each with the lost calls of its body, and with the calls that it resolves
itself.
-/

namespace PointsTo

open Inclusion

/-- A look-up has succeeded and has found nothing. -/
def foundNone {α : Type} : Except OutOfRange (Option α) → Bool
  | .ok none => true
  | _ => false

theorem foundNone_iff {α : Type} {r : Except OutOfRange (Option α)} :
    foundNone r = true ↔ r = .ok none := by
  rcases r with _ | _ | _ <;> simp [foundNone]

variable {P : Problem}

namespace Problem

section Lost

variable (P)

/-- A statement is a static call for which there is no method. -/
def isLost : Stmt → Bool
  | .invoke i =>
    match P.program.invokeAt i with
    | .ok call => call.kind = .static && foundNone (P.hierarchy.resolveStatic call.target)
    | .error _ => false
  | _ => false

/-- A call is made on objects, and there is no method for an object of a type. -/
def isMissed (ty : Ty) (i : InvokeId) : Bool :=
  match P.program.invokeAt i with
  | .ok call => call.kind ≠ .static && foundNone (P.hierarchy.calleeOn call ty)
  | .error _ => false

/-- The statements of a method. -/
def bodyOf (m : MethodId) : List Stmt :=
  match P.program.methodAt m with
  | .ok method => method.body.toList
  | .error _ => []

/-- The number of lost calls in the body of a method. -/
def lostIn (m : MethodId) : Nat :=
  (P.bodyOf m).countP P.isLost

end Lost

theorem isLost_invoke {i : InvokeId} {call : Invoke} (found : P.program.invokeAt i = .ok call) :
    P.isLost (.invoke i) =
      (call.kind = .static && foundNone (P.hierarchy.resolveStatic call.target)) := by
  rw [isLost, found]

theorem isLost_iff {stmt : Stmt} : P.isLost stmt = true ↔ ∃ i call, stmt = .invoke i ∧
    P.program.invokeAt i = .ok call ∧ call.kind = .static ∧
      P.hierarchy.resolveStatic call.target = .ok none := by
  cases stmt with
  | invoke i =>
    cases described : P.program.invokeAt i with
    | error r => simp [isLost, described]
    | ok call => simp [isLost_invoke described, foundNone_iff, described]
  | _ => simp [isLost]

theorem isMissed_iff {ty : Ty} {i : InvokeId} : P.isMissed ty i = true ↔ ∃ call,
    P.program.invokeAt i = .ok call ∧ call.kind ≠ .static ∧
      P.hierarchy.calleeOn call ty = .ok none := by
  cases described : P.program.invokeAt i with
  | error r => simp [isMissed, described]
  | ok call => simp [isMissed, foundNone_iff, described]

theorem isMissed_of_invokeAt {ty : Ty} {i : InvokeId} {call : Invoke}
    (found : P.program.invokeAt i = .ok call) : P.isMissed ty i =
      (call.kind ≠ .static && foundNone (P.hierarchy.calleeOn call ty)) := by
  rw [isMissed, found]

end Problem

namespace SolverState

/-! ## What an operation counts -/

/-- An operation visits some methods, brings no object anywhere, and counts the lost calls of the
methods that it visits and `n` calls besides. -/
structure Tally (visits : List (CsMethodId × CsMethod)) (n : Nat) (s s' : SolverState P) : Prop where
  kept : s.Kept s'
  contains : ∀ {p : PointerId} {o : CsObjId}, s'.Contains p o → s.Contains p o
  reachable : s'.callGraph.reachable.toList = s.callGraph.reachable.toList ++ visits.map Prod.fst
  known : ∀ a ∈ visits, s'.elements.methods.get? a.1.index = some a.2
  unresolved : s'.stats.unresolvedCalls =
    s.stats.unresolvedCalls + (visits.map fun a => P.lostIn a.2.method).sum + n

/-- An operation counts `n` calls besides those of the methods that it visits. -/
def Tallies (n : Nat) (s s' : SolverState P) : Prop :=
  ∃ visits, Tally visits n s s'

variable {Asked : PointerKey → Prop} {s s' s'' : SolverState P} {m n : Nat}

/-- An operation that visits no methods. -/
theorem Tallies.of_same (kept : s.Kept s')
    (contains : ∀ {p : PointerId} {o : CsObjId}, s'.Contains p o → s.Contains p o)
    (reachable : s'.callGraph.reachable = s.callGraph.reachable)
    (unresolved : s'.stats.unresolvedCalls = s.stats.unresolvedCalls + n) : s.Tallies n s' := by
  refine ⟨[], kept, contains, ?_, by simp, ?_⟩
  · rw [reachable, List.map_nil, List.append_nil]
  · rw [unresolved, List.map_nil, List.sum_nil, Nat.add_zero]

theorem Quiet.tallies (quiet : Quiet Asked s s') : s.Tallies 0 s' :=
  .of_same quiet.kept quiet.contains (by rw [quiet.callGraph]) quiet.unresolved

theorem Tallies.refl (s : SolverState P) : s.Tallies 0 s :=
  .of_same (.refl s) id rfl rfl

theorem Tallies.trans (first : s.Tallies m s') (second : s'.Tallies n s'') :
    s.Tallies (m + n) s'' := by
  obtain ⟨visits, first⟩ := first
  obtain ⟨visits', second⟩ := second
  refine ⟨visits ++ visits', first.kept.trans second.kept,
    fun here => first.contains (second.contains here), ?_, fun a mem => ?_, ?_⟩
  · rw [second.reachable, first.reachable, List.append_assoc, List.map_append]
  · rcases List.mem_append.1 mem with old | new
    · exact Table.get?_of_prefix second.kept.methods (first.known a old)
    · exact second.known a new
  · rw [second.unresolved, first.unresolved, List.map_append, List.sum_append_nat]
    omega

/-- An operation after one that counts nothing besides. -/
theorem Tallies.then (first : s.Tallies 0 s') (second : s'.Tallies n s'') : s.Tallies n s'' := by
  have both := first.trans second
  rwa [Nat.zero_add] at both

end SolverState

namespace Solve

open SolverState (Quiet Tally Tallies kept_of_change)

variable {s : SolverState P}

theorem countUnresolved_tallies :
    Ensures s (countUnresolved : Solve P Unit) fun _ => s.Tallies 1 :=
  .of_ok (countUnresolved_run s) (.of_same (kept_of_change (.unresolved s)) id rfl rfl)

theorem csMethod_tallies (c : ContextId) (m : MethodId) :
    Ensures s (csMethod c m) fun _ => s.Tallies 0 :=
  .of_ok (csMethod_run s c m) (.of_same (kept_of_change (.csMethod s ⟨c, m⟩)) id rfl rfl)

theorem addCallEdge_tallies (e : CallEdge .csCallSite .csMethod) :
    Ensures s (addCallEdge e) fun _ => s.Tallies 0 :=
  .of_ok (addCallEdge_run s e) (.of_same (kept_of_change (.callEdge s e)) id
    (CallGraph.reachable_addEdge s.callGraph e) rfl)

theorem wireCall_tallies (c c' : ContextId) (call : Invoke) (callee : MethodId) :
    Ensures s (wireCall c call c' callee) fun _ => s.Tallies 0 :=
  (wireCall_quiet (fun _ _ => trivial) fun _ _ _ _ => trivial).imp
    fun _ _ (quiet : Quiet (fun _ => True) s _) => quiet.tallies

/-! ## Bodies -/

theorem callStatic_tallies (c : ContextId) (i : InvokeId) (call : Invoke) :
    Ensures s (callStatic c i call) fun _ =>
      s.Tallies (if foundNone (P.hierarchy.resolveStatic call.target) then 1 else 0) := by
  refine .lookup fun found target => ?_
  rw [target]
  cases found with
  | none => exact countUnresolved_tallies.bind fun _ s₁ tallies₁ => .pure tallies₁
  | some callee =>
    refine (csCallSite_quiet (fun _ => True) c i).bind fun j s₁ ⟨quiet₁, _⟩ => ?_
    refine (select_quiet (fun _ => True) _).bind fun c' s₂ quiet₂ => ?_
    refine (checkArity_ensures call callee).bind fun _ s₂ same => ?_
    subst same
    refine (csMethod_tallies c' callee).bind fun m s₃ tallies₃ => ?_
    refine (addCallEdge_tallies ⟨.static, j, m⟩).bind fun isNew s₄ tallies₄ => ?_
    have tallies := ((quiet₁.trans quiet₂).tallies.trans tallies₃).trans tallies₄
    cases isNew with
    | false => exact .pure tallies
    | true =>
      exact (wireCall_tallies c c' call callee).bind
        fun _ s₅ tallies₅ => .pure (tallies.trans tallies₅)

theorem seedStmt_tallies (x : CsMethod) (position : Nat) (stmt : Stmt) :
    Ensures s (seedStmt x position stmt) fun _ => s.Tallies (if P.isLost stmt then 1 else 0) := by
  -- a statement that counts nothing
  have quiet : ∀ {y : Solve P Unit}, (Ensures s y fun _ => Quiet (fun _ => True) s) →
      Ensures s (do y; return none) fun _ : Option CsMethodId => s.Tallies 0 :=
    fun ensures => ensures.bind fun _ s₁ quiet => .pure quiet.tallies
  unfold seedStmt
  split
  · exact quiet (allocate_quiet trivial)
  · exact quiet (flow_quiet trivial trivial)
  · exact quiet (flow_quiet trivial trivial)
  · exact quiet (flow_quiet trivial trivial)
  · rename_i i
    refine .lookup fun call found => ?_
    rw [Problem.isLost_invoke found]
    split
    · rename_i kind
      simpa [kind] using callStatic_tallies x.context i call
    · rename_i kind
      simpa [kind] using Ensures.pure (.refl s)
  · rename_i h₁ h₂ h₃ h₄ h₅
    have found : P.isLost stmt = false := by
      cases stmt <;> first | rfl | exact absurd rfl (h₅ _)
    rw [found]
    exact .pure (.refl s)

theorem seedBody_tallies (x : CsMethod) (stmts : List Stmt) {s : SolverState P} (position : Nat)
    (callees : List CsMethodId) :
    Ensures s (seedBody x position callees stmts) fun _ => s.Tallies (stmts.countP P.isLost) := by
  induction stmts generalizing s position callees with
  | nil => exact .pure (.refl s)
  | cons stmt stmts ih =>
    refine (seedStmt_tallies x position stmt).bind fun called s₁ tallies₁ => ?_
    refine (ih (position + 1) (called.toList ++ callees)).imp fun _ s₂ tallies₂ => ?_
    rw [List.countP_cons, Nat.add_comm]
    exact tallies₁.trans tallies₂

theorem seedMethod_tallies (x : CsMethod) :
    Ensures s (seedMethod x) fun _ => s.Tallies (P.lostIn x.method) := by
  refine .lookup fun method found => ?_
  rw [Problem.lostIn, Problem.bodyOf, found]
  exact seedBody_tallies x method.body.toList 0 []

/-! ## Visits -/

theorem visit_tallies (m : CsMethodId) : Ensures s (visit m) fun _ => s.Tallies 0 := by
  rw [visit_eq]
  refine .get (.lookup fun x found => .lookup fun invokes _ => ?_)
  have sites : Ensures s (invokes.mapM (csCallSite x.context)) fun _ => Quiet (fun _ => True) s :=
    .mapM (fun i _ s₁ quiet₁ => (csCallSite_quiet _ x.context i).imp
      fun _ s₂ ⟨quiet₂, _⟩ => quiet₁.trans quiet₂) (.refl s)
  refine sites.bind fun js s₁ quiet₁ => ?_
  have run := seedNew_run s₁ m x js
  cases listed : s₁.callGraph.isReachable m with
  | true =>
    rw [if_pos listed] at run
    exact .of_ok run quiet₁.tallies
  | false =>
    rw [if_neg (by simp [listed])] at run
    have absent : m ∉ s₁.callGraph.reachable.toList := by
      rw [← CallGraph.isReachable_iff, listed]
      simp
    have kept := kept_of_change (.reachable js listed)
    refine .of_run run ((seedMethod_tallies x).imp fun _ s₂ tallies₂ => quiet₁.tallies.then ?_)
    obtain ⟨visits, tally⟩ := tallies₂
    have present := Table.get?_of_prefix quiet₁.kept.methods (fetch_eq_ok_iff.1 found)
    -- the visited method comes with the lost calls of its body
    refine ⟨(m, x) :: visits, kept.trans tally.kept, tally.contains, ?_, ?_, ?_⟩
    · rw [tally.reachable, CallGraph.reachable_addReachable js listed,
        Table.toList_insert_of_not_mem absent, List.append_assoc]
      rfl
    · refine List.forall_mem_cons.2 ⟨?_, tally.known⟩
      exact Table.get?_of_prefix (kept.trans tally.kept).methods present
    · rw [tally.unresolved, List.map_cons, List.sum_cons]
      dsimp only
      omega

theorem visitAll_tallies (rounds : Nat) (stack : List CsMethodId) {s : SolverState P} :
    Ensures s (visitAll rounds stack) fun _ => s.Tallies 0 := by
  induction rounds generalizing stack s with
  | zero =>
    cases stack with
    | nil => exact .pure (.refl s)
    | cons m rest => exact .throw
  | succ rounds ih =>
    cases stack with
    | nil => exact .pure (.refl s)
    | cons m rest =>
      refine (visit_tallies m).bind fun callees s₁ tallies₁ => ?_
      exact (ih (callees ++ rest)).imp fun _ s₂ => tallies₁.trans

theorem addReachable_tallies (m : CsMethodId) :
    Ensures s (addReachable m) fun _ => s.Tallies 0 :=
  visitAll_tallies P.limit [m]

/-! ## Calls on objects -/

theorem callOn_tallies (c : ContextId) (i : InvokeId) (call : Invoke) (recv : CsObjId)
    (recvObj : CsObj) (obj : Obj) (callee : MethodId) :
    Ensures s (callOn c i call recv recvObj obj callee) fun _ => s.Tallies 0 := by
  refine (select_quiet (fun _ => True) _).bind fun c' s₁ quiet₁ => .lookup fun method _ => ?_
  cases method.receiver with
  | none => exact .lookup fun _ _ => .throw
  | some self =>
    refine (checkArity_ensures call callee).bind fun _ s₁ same => ?_
    subst same
    have receiver : Ensures s₁ (pointer (.var c' self)) fun _ => Quiet (fun _ => True) s₁ :=
      pointer_quiet trivial
    refine receiver.bind fun p s₂ quiet₂ => ?_
    refine (schedule_quiet (fun _ => True) p _).bind fun _ s₃ quiet₃ => ?_
    refine (csCallSite_quiet (fun _ => True) c i).bind fun j s₄ ⟨quiet₄, _⟩ => ?_
    refine (csMethod_tallies c' callee).bind fun m s₅ tallies₅ => ?_
    refine (addCallEdge_tallies ⟨call.kind, j, m⟩).bind fun isNew s₆ tallies₆ => ?_
    have quiet := ((quiet₁.trans quiet₂).trans quiet₃).trans quiet₄
    have tallies := (quiet.tallies.trans tallies₅).trans tallies₆
    cases isNew with
    | false => exact .pure tallies
    | true =>
      refine (addReachable_tallies m).bind fun _ s₇ tallies₇ => ?_
      exact (wireCall_tallies c c' call callee).imp
        fun _ s₈ tallies₈ => (tallies.trans tallies₇).trans tallies₈

/-- A call on an object of a known type. -/
theorem resolveCall_tallies {c : ContextId} {recv : CsObjId} {recvObj : CsObj} {i : InvokeId}
    {ty : Ty} (typed : ∀ obj, P.heapModel.objectAt s.heap recvObj.obj = .ok obj → obj.ty = ty) :
    Ensures s (resolveCall c recv recvObj i) fun _ =>
      s.Tallies (if P.isMissed ty i then 1 else 0) := by
  refine .lookup fun call described => .get (.lookup fun obj found => ?_)
  rw [Problem.isMissed_of_invokeAt described, ← typed obj found]
  split
  · rename_i kind
    simpa [kind] using Ensures.pure (.refl s)
  · rename_i dynamic
    refine .lookup fun called target => ?_
    have reaches : P.hierarchy.calleeOn call obj.ty = .ok called := target
    rw [reaches]
    cases called with
    | none => simpa [dynamic, foundNone] using countUnresolved_tallies
    | some callee => simpa [foundNone] using callOn_tallies c i call recv recvObj obj callee

end Solve

end PointsTo
