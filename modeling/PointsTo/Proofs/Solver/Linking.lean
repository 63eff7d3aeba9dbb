import PointsTo.Proofs.Solver.Running
import PointsTo.Proofs.Solver.Whole

/-!
# Operations keep the call graph whole

A static call leaves its callee to the stack of methods to visit, and a call on an object has its
callee visited before it goes on. So no method waits between two operations, and every entry has been
entered once an analysis has started.
-/

namespace PointsTo

open Inclusion

variable {P : Problem}

namespace Solve

open SolverState (Quiet Extends kept_of_change)

variable {s : SolverState P} {waiting : List CsMethodId}

/-! ## Calls -/

/-- A callee becomes known and a call is added. If the call is new, the callee waits to be visited.
Before that, an operation may have asked for locations of the callee. -/
theorem link_whole {β : Type} {before : SolverState P} {Asked : PointerKey → Prop}
    {f : CsMethodId → Bool → Solve P β} {post : β → SolverState P → Prop} {x : CsMethod}
    {c : ContextId} {callee : MethodId} {i : InvokeId} {call : Invoke} {j : CsCallSiteId}
    {kind : CallKind} (whole : before.Whole waiting) (quiet : Quiet Asked before s)
    (asked : ∀ k, Asked k → before.Housed k ∨ P.program.IsLocal ⟨c, callee⟩ k)
    (caller : x ∈ before.elements.methods.toList) (site : CallIn P.hierarchy x.method i call)
    (point : s.elements.callSites.get? j.index = some ⟨x.context, i⟩)
    (old : ∀ m s', before.Extends waiting s' → Ensures s' (f m false) post)
    (new : ∀ m s', before.Extends (m :: waiting) s' → ⟨c, callee⟩ ∈ s'.elements.methods.toList →
      Ensures s' (f m true) post) :
    Ensures s (do
      let m ← csMethod c callee
      let isNew ← addCallEdge ⟨kind, j, m⟩
      f m isNew) post := by
  generalize named : (⟨(s.elements.methods.intern ⟨c, callee⟩).1⟩ : CsMethodId) = m
  have first := csMethod_run s c callee
  rw [named] at first
  refine .then first (.then (addCallEdge_run _ ⟨kind, j, m⟩) ?_)
  have kept₁ := kept_of_change (.csMethod s ⟨c, callee⟩)
  have kept := (quiet.kept.trans kept₁).trans (kept_of_change (.callEdge _ ⟨kind, j, m⟩))
  generalize added : ({ s with
      elements := (s.elements.csMethod ⟨c, callee⟩).2
      callGraph := (s.callGraph.addEdge ⟨kind, j, m⟩).2 } : SolverState P) = s' at *
  have found : s'.elements.methods.get? m.index = some ⟨c, callee⟩ := by
    rw [← added, ← named]
    exact Table.get?_intern s.elements.methods ⟨c, callee⟩
  have callee' := Table.mem_toList_of_get? found
  have methods : s'.elements.methods = (before.elements.methods.intern ⟨c, callee⟩).2 := by
    rw [← added, ← quiet.methods]
    rfl
  have callGraph : s'.callGraph = (before.callGraph.addEdge ⟨kind, j, m⟩).2 := by
    rw [← added, ← quiet.callGraph]
  have pointers : ∀ k ∈ s'.elements.pointers.toList,
      k ∈ before.elements.pointers.toList ∨ s'.Housed k := by
    intro k mem
    rw [← added] at mem
    refine (quiet.pointers k mem).imp_right fun held => ?_
    rcases asked k held with housed | ⟨v, rfl, owns⟩
    · exact kept.housed housed
    · exact ⟨callee, owns, callee'⟩
  have links : s'.Links ⟨kind, j, m⟩ x ⟨c, callee⟩ := by
    refine ⟨kept.methods.subset caller, ⟨i, call, ?_, site⟩, found⟩
    rw [← added]
    exact point
  have whole' := whole.link kept caller links methods callGraph pointers
  have same : (s.callGraph.addEdge ⟨kind, j, m⟩).1 = (before.callGraph.addEdge ⟨kind, j, m⟩).1 := by
    rw [quiet.callGraph]
  cases isNew : (before.callGraph.addEdge ⟨kind, j, m⟩).1 with
  | false =>
    rw [isNew] at whole' same
    rw [same]
    exact old m s' ⟨kept, whole'⟩
  | true =>
    rw [isNew] at whole' same
    rw [same]
    exact new m s' ⟨kept, whole'⟩ callee'

section Program

variable (wf : P.program.WellFormed)
include wf

/-- The variables of a call belong to the method that it stands in. -/
theorem owns_of_callIn {m : MethodId} {i : InvokeId} {call : Invoke} {v : VarId}
    (site : CallIn P.hierarchy m i call) (mem : v ∈ call.vars) : P.program.Owns m v := by
  obtain ⟨position, stands⟩ := site.stmt
  have found : P.program.invokeAt i = .ok call := fetch_eq_ok_iff.2 site.call
  refine wf.owns stands ?_ mem
  rw [Stmt.vars, found]
  rfl

/-- The wiring of a call between known methods asks for their variables only. -/
theorem wireCall_housed {c c' : ContextId} {m callee : MethodId} {i : InvokeId} {call : Invoke}
    (site : CallIn P.hierarchy m i call) (caller : ⟨c, m⟩ ∈ s.elements.methods.toList)
    (called : ⟨c', callee⟩ ∈ s.elements.methods.toList) :
    Ensures s (wireCall c call c' callee) fun _ => Quiet s.Housed s := by
  refine wireCall_quiet (fun v mem => ⟨m, owns_of_callIn wf site mem, caller⟩) ?_
  intro method found v mem
  have declared := fetch_eq_ok_iff.1 found
  refine ⟨callee, ?_, called⟩
  rcases mem with param | returned
  · exact (wf.methods callee method declared).params v param
  · obtain ⟨position, stands⟩ := (wf.returned callee method declared v).1 returned
    exact wf.owns stands rfl (by simp)

theorem callStatic_whole (whole : s.Whole waiting) {x : CsMethod} {i : InvokeId} {call : Invoke}
    (known : x ∈ s.elements.methods.toList) (site : CallIn P.hierarchy x.method i call) :
    Ensures s (callStatic x.context i call) fun called => s.Extends (called.toList ++ waiting) := by
  refine .lookup fun found _ => ?_
  cases found with
  | none =>
    have counted := kept_of_change (.unresolved s)
    refine .then (countUnresolved_run s) (.pure ⟨counted, ?_⟩)
    exact whole.grow counted rfl rfl (fun _ => Or.inl) fun _ => Or.inr
  | some callee =>
    refine (csCallSite_quiet s.Housed x.context i).bind fun j s₁ ⟨quiet₁, point⟩ => ?_
    refine (select_quiet s.Housed _).bind fun c' s₂ quiet₂ => ?_
    refine (checkArity_ensures call callee).bind fun _ s₂ same => ?_
    subst same
    have point₂ := Table.get?_of_prefix quiet₂.kept.callSites point
    refine link_whole whole (quiet₁.trans quiet₂) (fun _ => Or.inl) known site point₂
      (fun m s' extends' => .pure extends') fun m s' extends' called => ?_
    have caller := extends'.kept.methods.subset known
    refine (wireCall_housed wf site caller called).bind fun _ s₃ quiet₃ => .pure ?_
    exact extends'.trans (extends'.whole.extends quiet₃)

/-! ## Bodies -/

section Body

variable {x : CsMethod}

theorem seedStmt_whole (whole : s.Whole waiting) (known : x ∈ s.elements.methods.toList)
    {position : Nat} {stmt : Stmt} (stands : P.program.stmt? x.method position = some stmt) :
    Ensures s (seedStmt x position stmt) fun called => s.Extends (called.toList ++ waiting) := by
  obtain ⟨vs, vars, owned⟩ := (wf.stmts x.method position stmt stands).vars
  -- a statement that asks for its own variables only
  have quiet : ∀ {y : Solve P Unit}, (Ensures s y fun _ => Quiet s.Housed s) →
      Ensures s (do y; return none) fun called : Option CsMethodId =>
        s.Extends (called.toList ++ waiting) :=
    fun ensures => ensures.bind fun _ s₁ quiet => .pure (whole.extends quiet)
  have housed : ∀ v ∈ vs, s.Housed (.var x.context v) := fun v mem => ⟨x.method, owned v mem, known⟩
  unfold seedStmt
  split
  · obtain rfl := Except.ok.inj vars
    exact quiet (allocate_quiet (housed _ (by simp)))
  · obtain rfl := Except.ok.inj vars
    exact quiet (flow_quiet (housed _ (by simp)) (housed _ (by simp)))
  · obtain rfl := Except.ok.inj vars
    exact quiet (flow_quiet trivial (housed _ (by simp)))
  · obtain rfl := Except.ok.inj vars
    exact quiet (flow_quiet (housed _ (by simp)) trivial)
  · rename_i i
    refine .lookup fun call described => ?_
    split
    · exact callStatic_whole wf whole known ⟨⟨position, stands⟩, fetch_eq_ok_iff.1 described⟩
    · exact .pure (whole.extends (.refl s))
  · exact .pure (whole.extends (.refl s))

theorem seedBody_whole (stmts : List Stmt) {s : SolverState P} {position : Nat}
    {callees : List CsMethodId} (whole : s.Whole (callees ++ waiting))
    (known : x ∈ s.elements.methods.toList)
    (stand : ∀ j stmt, stmts[j]? = some stmt →
      P.program.stmt? x.method (position + j) = some stmt) :
    Ensures s (seedBody x position callees stmts) fun callees' =>
      s.Extends (callees' ++ waiting) := by
  induction stmts generalizing s position callees with
  | nil => exact .pure ⟨.refl s, whole⟩
  | cons stmt stmts ih =>
    refine (seedStmt_whole wf whole known (stand 0 stmt rfl)).bind fun called s₁ extends₁ => ?_
    have whole₁ := extends₁.whole
    rw [← List.append_assoc] at whole₁
    exact (ih whole₁ (extends₁.kept.methods.subset known) (Program.stmt?_of_tail stand)).imp
      fun _ s₂ => extends₁.trans

theorem seedMethod_whole (whole : s.Whole waiting) (known : x ∈ s.elements.methods.toList) :
    Ensures s (seedMethod x) fun callees => s.Extends (callees ++ waiting) := by
  refine .lookup fun method found => ?_
  refine seedBody_whole wf method.body.toList whole known fun j stmt listed => ?_
  rw [Nat.zero_add]
  rw [Array.getElem?_toList] at listed
  exact Program.stmt?_eq_some_iff.2 ⟨method, fetch_eq_ok_iff.1 found, listed⟩

end Body

/-! ## Visits -/

/-- A visited method waits no longer; the methods that it calls statically do. -/
theorem visit_whole {m : CsMethodId} (whole : s.Whole (m :: waiting)) :
    Ensures s (visit m) fun callees => s.Extends (callees ++ waiting) := by
  rw [visit_eq]
  refine .get (.lookup fun x found => .lookup fun invokes _ => ?_)
  have sites : Ensures s (invokes.mapM (csCallSite x.context)) fun _ => Quiet s.Housed s :=
    .mapM (fun i _ s₁ quiet₁ => (csCallSite_quiet _ x.context i).imp
      fun _ s₂ ⟨quiet₂, _⟩ => quiet₁.trans quiet₂) (.refl s)
  refine sites.bind fun js s₁ quiet₁ => ?_
  have extends₁ := whole.extends quiet₁
  have known : x ∈ s₁.elements.methods.toList := by
    rw [quiet₁.methods]
    exact Table.mem_toList_of_get? (fetch_eq_ok_iff.1 found)
  have run := seedNew_run s₁ m x js
  -- nothing else leaves the waiting methods
  have served : ∀ {s' : SolverState P}, m ∈ s'.callGraph.reachable.toList →
      ∀ m' ∈ m :: waiting, m' ∈ s'.callGraph.reachable.toList ∨ m' ∈ waiting := by
    intro s' reached m' mem
    rcases List.mem_cons.1 mem with rfl | waits
    · exact Or.inl reached
    · exact Or.inr waits
  cases listed : s₁.callGraph.isReachable m with
  | true =>
    rw [if_pos listed] at run
    refine .of_ok run ⟨quiet₁.kept, extends₁.whole.grow (.refl s₁) rfl rfl (fun _ => Or.inl) ?_⟩
    exact served (CallGraph.isReachable_iff.1 listed)
  | false =>
    rw [if_neg (by simp [listed])] at run
    have kept₂ := kept_of_change (.reachable js listed)
    have reached : m ∈ (s₁.callGraph.addReachable m js).2.reachable.toList :=
      CallGraph.mem_reachable_addReachable.2 (Or.inr rfl)
    have whole₂ : SolverState.Whole waiting
        { s₁ with callGraph := (s₁.callGraph.addReachable m js).2 } :=
      extends₁.whole.grow kept₂ rfl (CallGraph.edges_addReachable _ _ _) (fun _ => Or.inl)
        (served reached)
    refine .of_run run ((seedMethod_whole wf whole₂ known).imp fun callees s₃ extends₃ => ?_)
    exact ⟨(quiet₁.kept.trans kept₂).trans extends₃.kept, extends₃.whole⟩

/-- The stack of a loop of visits holds all methods that wait. -/
theorem visitAll_whole (rounds : Nat) (stack : List CsMethodId) {s : SolverState P}
    (whole : s.Whole stack) : Ensures s (visitAll rounds stack) fun _ => s.Extends [] := by
  induction rounds generalizing stack s with
  | zero =>
    cases stack with
    | nil => exact .pure ⟨.refl s, whole⟩
    | cons m rest => exact .throw
  | succ rounds ih =>
    cases stack with
    | nil => exact .pure ⟨.refl s, whole⟩
    | cons m rest =>
      refine (visit_whole wf whole).bind fun callees s₁ extends₁ => ?_
      exact (ih _ extends₁.whole).imp fun _ s₂ => extends₁.trans

theorem addReachable_whole {m : CsMethodId} (whole : s.Whole [m]) :
    Ensures s (addReachable m) fun _ => s.Extends [] :=
  visitAll_whole wf P.limit [m] whole

/-! ## Calls on objects -/

theorem callOn_whole (whole : s.Whole []) {c : ContextId} {m callee : MethodId} {i : InvokeId}
    {call : Invoke} {recv : CsObjId} {recvObj : CsObj} {obj : Obj}
    (known : ⟨c, m⟩ ∈ s.elements.methods.toList) (site : CallIn P.hierarchy m i call) :
    Ensures s (callOn c i call recv recvObj obj callee) fun _ => s.Extends [] := by
  refine (select_quiet s.Housed _).bind fun c' s₁ quiet₁ => .lookup fun method found => ?_
  have extends₁ := whole.extends quiet₁
  cases bound : method.receiver with
  | none => exact .lookup fun _ _ => .throw
  | some self =>
    refine (checkArity_ensures call callee).bind fun _ s₁ same => ?_
    subst same
    have owns : P.program.Owns callee self :=
      (wf.methods callee method (fetch_eq_ok_iff.1 found)).receiver self bound
    -- the receiver variable is asked for before its method is known
    have own : P.program.IsLocal ⟨c', callee⟩ (.var c' self) := ⟨self, rfl, owns⟩
    refine (pointer_quiet own).bind fun p s₂ quiet₂ => ?_
    refine (schedule_quiet (P.program.IsLocal ⟨c', callee⟩) p _).bind fun _ s₃ quiet₃ => ?_
    refine (csCallSite_quiet (P.program.IsLocal ⟨c', callee⟩) c i).bind
      fun j s₄ ⟨quiet₄, point⟩ => ?_
    refine link_whole (x := ⟨c, m⟩) extends₁.whole ((quiet₂.trans quiet₃).trans quiet₄)
      (fun _ => Or.inr) (extends₁.kept.methods.subset known) site point
      (fun m' s₅ extends₅ => .pure (extends₁.trans extends₅)) fun m' s₅ extends₅ called => ?_
    refine (addReachable_whole wf extends₅.whole).bind fun _ s₆ extends₆ => ?_
    have extends' := (extends₁.trans extends₅).trans extends₆
    refine (wireCall_housed wf site (extends'.kept.methods.subset known)
      (extends₆.kept.methods.subset called)).imp fun _ s₇ quiet₇ => ?_
    exact extends'.trans (extends'.whole.extends quiet₇)

section Objects

variable {c : ContextId} {v : VarId} {var : Var} {o : CsObjId}
  (declared : P.program.vars[v.index]? = some var)
include declared

theorem resolveCall_whole (whole : s.Whole []) (known : ⟨c, var.method⟩ ∈ s.elements.methods.toList)
    {recvObj : CsObj} {i : InvokeId} (has : var.uses.Has (.invoke i)) :
    Ensures s (resolveCall c o recvObj i) fun _ => s.Extends [] := by
  refine .lookup fun call described => .get (.lookup fun obj _ => ?_)
  obtain ⟨position, stmt, stands, rfl, -⟩ := (wf.uses v var declared (.invoke i)).1 has
  have site : CallIn P.hierarchy var.method i call :=
    ⟨⟨position, stands⟩, fetch_eq_ok_iff.1 described⟩
  split
  · exact .pure (whole.extends (.refl s))
  · refine .lookup fun found _ => ?_
    cases found with
    | none =>
      have counted := kept_of_change (.unresolved s)
      exact .of_ok (countUnresolved_run s)
        ⟨counted, whole.grow counted rfl rfl (fun _ => Or.inl) fun _ => Or.inr⟩
    | some callee => exact callOn_whole wf whole known site

/-- Reacting to an object that is new to a variable of a known method. -/
theorem processObject_whole (whole : s.Whole [])
    (known : ⟨c, var.method⟩ ∈ s.elements.methods.toList) :
    Ensures s (processObject c v o) fun _ => s.Extends [] := by
  have only : ∀ var', P.program.varAt v = .ok var' → var = var' := fun var' found =>
    Option.some.inj (declared.symm.trans (fetch_eq_ok_iff.1 found))
  have accesses : Ensures s (processAccesses c v o) fun _ => Quiet s.Housed s := by
    refine processAccesses_quiet (fun _ => trivial) trivial fun var' found w used => ?_
    obtain rfl := only var' found
    refine ⟨var.method, ?_, known⟩
    rcases used with ⟨f, stored | loaded⟩ | stored | loaded
    · obtain ⟨i, stmt, stands, rfl⟩ := (wf.uses v var declared (.storeField f w)).1 stored
      exact wf.owns stands rfl (by simp)
    · obtain ⟨i, stmt, stands, rfl⟩ := (wf.uses v var declared (.loadField f w)).1 loaded
      exact wf.owns stands rfl (by simp)
    · obtain ⟨i, stmt, stands, rfl⟩ := (wf.uses v var declared (.storeArray w)).1 stored
      exact wf.owns stands rfl (by simp)
    · obtain ⟨i, stmt, stands, rfl⟩ := (wf.uses v var declared (.loadArray w)).1 loaded
      exact wf.owns stands rfl (by simp)
  refine accesses.bind fun _ s₁ quiet₁ => .get (.lookup fun recvObj _ => .lookup fun var' found => ?_)
  obtain rfl := only var' found
  refine .forM (fun i has s₂ extends₂ => ?_) (whole.extends quiet₁)
  exact (resolveCall_whole wf declared extends₂.whole (extends₂.kept.methods.subset known) has).imp
    fun _ s₃ => extends₂.trans

end Objects

/-! ## Steps and starts -/

theorem react_whole (whole : s.Whole []) (p : PointerId) (delta : ObjectSet) :
    Ensures s (react p delta) fun _ => s.Extends [] := by
  have same := whole.extends (.refl s)
  unfold react
  split
  · exact .pure same
  · refine .get (.lookup fun k found => ?_)
    cases k with
    | var c v =>
      have listed := Table.mem_toList_of_get? (fetch_eq_ok_iff.1 found)
      obtain ⟨m, ⟨var, declared, rfl⟩, known⟩ := whole.housed _ listed
      have each : Ensures s (delta.toList.forM (processObject c v)) fun _ => s.Extends [] :=
        .forM (fun o _ s₁ extends₁ => (processObject_whole wf declared extends₁.whole
          (extends₁.kept.methods.subset known)).imp fun _ s₂ => extends₁.trans) same
      exact each.bind fun _ s₁ extends₁ => .pure extends₁
    | _ => exact .pure same

theorem step_whole (whole : s.Whole []) : Ensures s step fun _ => s.Extends [] := by
  have run := step_run s
  cases head : s.worklist.poll with
  | none =>
    rw [head] at run
    exact .of_ok run (whole.extends (.refl s))
  | some entry =>
    obtain ⟨e, rest⟩ := entry
    cases found : s.elements.pointsToSet e.target with
    | error r =>
      simp only [head, found] at run
      exact .of_error run
    | ok known =>
      simp only [head, found] at run
      have kept := SolverState.kept_delivered head found
      obtain ⟨elements, worklist, stats, same, pointers, -, methods, -⟩ :=
        SolverState.delivered_eq s e rest known
      have whole' : (s.delivered e rest known).Whole [] := by
        rw [same] at kept ⊢
        refine whole.grow kept methods rfl ?_ fun _ => Or.inr
        rw [pointers]
        exact fun _ => Or.inl
      refine .of_run run ((react_whole wf whole' e.target _).imp fun _ s' extends' => ?_)
      exact ⟨kept.trans extends'.kept, extends'.whole⟩

/-- An entry of the program has been entered in the empty context. -/
theorem enter_whole (whole : s.Whole []) (m : MethodId) :
    Ensures s (enter m) fun _ s' => s.Extends [] s' ∧ s'.Enters ⟨.empty, m⟩ := by
  have first := csMethod_run s .empty m
  generalize named : (⟨(s.elements.methods.intern ⟨.empty, m⟩).1⟩ : CsMethodId) = x at first
  refine .then first (.then (modify_run _ _) ?_)
  have kept := (kept_of_change (.csMethod s ⟨.empty, m⟩)).trans (kept_of_change (.entry _ x))
  generalize added : ({ s with
      elements := (s.elements.csMethod ⟨.empty, m⟩).2
      callGraph := s.callGraph.addEntry x } : SolverState P) = s₁ at *
  have enters : s₁.Enters ⟨.empty, m⟩ := by
    rw [← added, ← named]
    exact ⟨_, Table.mem_toList_intern.2 (Or.inr rfl), Table.get?_intern s.elements.methods _⟩
  have whole₁ : s₁.Whole [x] := by
    rw [← named]
    refine whole.of_intern kept ?_ ?_ ?_ ⟨_, enters, .refl⟩
    · rw [← added]
      rfl
    · rw [← added]
      exact fun _ => Or.inl
    · rw [← added]
      exact fun _ => Or.inl
  refine (addReachable_whole wf whole₁).imp fun _ s₂ extends₂ => ?_
  exact ⟨⟨kept.trans extends₂.kept, extends₂.whole⟩, extends₂.kept.enters enters⟩

/-- All entries of the program have been entered after a start. -/
theorem start_whole (whole : s.Whole []) :
    Ensures s start fun _ s' => s.Extends [] s' ∧
      (s.initialized = false → ∀ m ∈ P.program.entries, s'.Enters ⟨.empty, m⟩) := by
  refine .get ?_
  split
  · rename_i started
    refine .pure ⟨whole.extends (.refl s), fun fresh => ?_⟩
    rw [started] at fresh
    cases fresh
  · split
    · exact .throw
    · have kept := kept_of_change (.initialized s)
      have whole₁ := whole.grow kept rfl rfl (fun _ => Or.inl) fun _ => Or.inr
      have each : Ensures { s with initialized := true } (P.program.entries.forM enter)
          fun _ s' => s.Extends [] s' ∧ (∀ m ∈ P.program.entries, s'.Enters ⟨.empty, m⟩) ∧
            ∀ m, SolverState.Enters { s with initialized := true } ⟨.empty, m⟩ →
              s'.Enters ⟨.empty, m⟩ :=
        .forM_each (fun m _ s₁ extends₁ => (enter_whole wf extends₁.whole m).imp
          fun _ s₂ ⟨extends₂, enters⟩ => ⟨extends₁.trans extends₂, enters,
            fun _ => extends₂.kept.enters⟩) ⟨kept, whole₁⟩
      refine .then (modify_run s _) (each.imp fun _ s₂ ⟨extends₂, entered, _⟩ => ?_)
      exact ⟨extends₂, fun _ => entered⟩

end Program

/-! ## Whether an analysis has started -/

section Started

variable {bound : Nat} (fits : P.program.Fits bound)
include fits

/-- A start that succeeds has started the analysis. -/
theorem start_initialized : Ensures s start fun _ s' => s'.initialized = true := by
  refine .get ?_
  split
  · rename_i started
    exact .pure started
  · split
    · exact .throw
    · refine .then (modify_run s _) (.forM (fun m _ s₁ started a s₂ run => ?_) rfl)
      exact SolverState.initialized_of_changes ((enter_moves fits m s₁).ok run).changes started

theorem step_initialized (started : s.initialized = true) :
    Ensures s step fun _ s' => s'.initialized = true :=
  fun _ _ run => SolverState.initialized_of_changes ((step_moves fits s).ok run).changes started

/-- A run that succeeds has started the analysis. -/
theorem solve_initialized : Ensures s solve fun _ s' => s'.initialized = true := by
  refine (start_initialized fits).bind fun _ s₁ started => ?_
  have steps : Ensures s₁ (stepAll P.limit) fun _ s' => s'.initialized = true := fun _ _ run =>
    SolverState.initialized_of_changes ((stepAll_moves fits P.limit s₁).ok run).changes started
  exact steps.bind fun _ s₂ started => .of_ok (recordSizes_run s₂) started

end Started

/-- There is no step when nothing is pending. -/
theorem step_of_empty (empty : s.worklist.toList = []) : step s = .ok false s := by
  rw [step_run, Worklist.poll_eq_none_iff.2 empty]

end Solve

end PointsTo
