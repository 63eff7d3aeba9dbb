import PointsTo.Proofs.Solver.Elements

/-!
# Field accesses, arities and wiring

The connections that accesses and calls need. Their justification is one inclusion rule each, for a
statement of a method that can run.
-/

namespace PointsTo

open Inclusion

variable {P : Problem} {q : Policy}

/-! ## Places of a well-formed program -/

/-- A place belongs to the program, and a variable to a method that can run. -/
def Problem.Place (P : Problem) (q : Policy) : Location → Prop
  | .var t v => ∃ var, P.program.vars[v.index]? = some var ∧ P.Derives q (.reachable ⟨t, var.method⟩)
  | .staticField f => f.index < P.program.fields.size
  | .instanceField _ f => f.index < P.program.fields.size
  | .arrayIndex _ => True

namespace Problem

/-- The variables of a statement are places where its method can run. -/
theorem place_of_stmt (wf : P.program.WellFormed) {t : Trail} {m : MethodId} {i : Nat} {stmt : Stmt}
    {vs : List VarId} {v : VarId} (stands : P.program.stmt? m i = some stmt)
    (reached : P.Derives q (.reachable ⟨t, m⟩)) (vars : stmt.vars P.program = .ok vs)
    (mem : v ∈ vs) : P.Place q (.var t v) := by
  obtain ⟨var, declared, rfl⟩ := wf.owns stands vars mem
  exact ⟨var, declared, reached⟩

theorem place_of_owns {t : Trail} {m : MethodId} {v : VarId} (owns : P.program.Owns m v)
    (reached : P.Derives q (.reachable ⟨t, m⟩)) : P.Place q (.var t v) := by
  obtain ⟨var, declared, rfl⟩ := owns
  exact ⟨var, declared, reached⟩

theorem place_of_callIn (wf : P.program.WellFormed) {t : Trail} {m : MethodId} {i : InvokeId}
    {call : Invoke} {v : VarId} (site : CallIn P.hierarchy m i call)
    (reached : P.Derives q (.reachable ⟨t, m⟩)) (mem : v ∈ call.vars) : P.Place q (.var t v) := by
  obtain ⟨position, stands⟩ := site.stmt
  refine place_of_stmt wf stands reached ?_ mem
  have found : P.program.invokeAt i = .ok call := fetch_eq_ok_iff.2 site.call
  rw [Stmt.vars, found]
  rfl

/-- The variables of a call that is made are places of the caller. -/
theorem place_of_caller (wf : P.program.WellFormed) {kind : CallKind} {t : Trail} {i : InvokeId}
    {a : Activation} {call : Invoke} {v : VarId} (called : P.Derives q (.calls kind ⟨t, i⟩ a))
    (described : P.program.invokes[i.index]? = some call) (mem : v ∈ call.vars) :
    P.Place q (.var t v) := by
  obtain ⟨m, call', site, reached⟩ := exists_callIn_of_calls called
  have same := site.call
  rw [show P.hierarchy.program.invokes[i.index]? = some call from described] at same
  obtain rfl := Option.some.inj same
  exact place_of_callIn wf site reached mem

/-- Statements and calls connect places of the program. -/
theorem place_of_flow (wf : P.program.WellFormed) {l l' : Location}
    (connects : Flow P.hierarchy (P.Derives q) l l') : P.Place q l ∧ P.Place q l' := by
  cases connects with
  | copy reached stmt =>
    exact ⟨place_of_stmt wf stmt reached rfl (by simp), place_of_stmt wf stmt reached rfl (by simp)⟩
  | @loadStatic t m i lhs f reached stmt =>
    exact ⟨(wf.stmts m i _ stmt).loaded _ _ rfl, place_of_stmt wf stmt reached rfl (by simp)⟩
  | @storeStatic t m i rhs f reached stmt =>
    exact ⟨place_of_stmt wf stmt reached rfl (by simp), (wf.stmts m i _ stmt).stored _ _ rfl⟩
  | @loadField t m i lhs base f b reached _ stmt =>
    exact ⟨(wf.stmts m i _ stmt).loaded _ _ rfl, place_of_stmt wf stmt reached rfl (by simp)⟩
  | @storeField t m i base rhs f b reached _ stmt =>
    exact ⟨place_of_stmt wf stmt reached rfl (by simp), (wf.stmts m i _ stmt).stored _ _ rfl⟩
  | loadArray reached _ stmt => exact ⟨trivial, place_of_stmt wf stmt reached rfl (by simp)⟩
  | storeArray reached _ stmt => exact ⟨place_of_stmt wf stmt reached rfl (by simp), trivial⟩
  | @argument kind t t' i call callee method arg param called described declared passed =>
    obtain ⟨mem, mem'⟩ := List.of_mem_zip passed
    have own := (wf.methods callee method declared).params param mem'
    exact ⟨place_of_caller wf called described (by simp [Invoke.vars, mem]),
      place_of_owns own (.one .callee called)⟩
  | @result kind t t' i call callee method value target called described declared assigned returned =>
    obtain ⟨position, stands⟩ := (wf.returned callee method declared value).1 returned
    exact ⟨place_of_stmt wf stands (.one .callee called) rfl (by simp),
      place_of_caller wf called described (by simp [Invoke.vars, assigned])⟩

/-- What holds an object is a place of the program. -/
theorem place_of_holds (wf : P.program.WellFormed) {l : Location} {o : HeapObj}
    (held : P.Derives q (.pointsTo l o)) : P.Place q l := by
  cases held with
  | step rule derived =>
    have first : ∀ {f fs}, (∀ k ∈ f :: fs, P.Derives q k) → P.Derives q f :=
      fun all => all _ List.mem_cons_self
    have second : ∀ {f g fs}, (∀ k ∈ f :: g :: fs, P.Derives q k) → P.Derives q g :=
      fun all => all _ (List.mem_cons_of_mem _ List.mem_cons_self)
    cases rule with
    | new stmt => exact place_of_stmt wf stmt (first derived) rfl (by simp)
    | copy stmt => exact (place_of_flow wf (.copy (first derived) stmt)).2
    | loadStatic stmt => exact (place_of_flow wf (.loadStatic (first derived) stmt)).2
    | storeStatic stmt => exact (place_of_flow wf (.storeStatic (first derived) stmt)).2
    | loadField stmt =>
      exact (place_of_flow wf (.loadField (first derived) (second derived) stmt)).2
    | storeField stmt =>
      exact (place_of_flow wf (.storeField (first derived) (second derived) stmt)).2
    | loadArray stmt =>
      exact (place_of_flow wf (.loadArray (first derived) (second derived) stmt)).2
    | storeArray stmt =>
      exact (place_of_flow wf (.storeArray (first derived) (second derived) stmt)).2
    | @receiver t m i call recv self o a callee method site receiver target declared bound =>
      have called : P.Derives q (.calls call.kind ⟨t, i⟩ ⟨q.receiverTrail t i o a, callee⟩) :=
        .step (.callOn site receiver target) derived
      have own := (wf.methods callee method declared).receiver self bound
      exact place_of_owns own (.one .callee called)
    | argument described declared passed =>
      exact (place_of_flow wf (.argument (first derived) described declared passed)).2
    | result described declared assigned returned =>
      exact (place_of_flow wf (.result (first derived) described declared assigned returned)).2

/-- What an analysis meets are places of the program. -/
theorem place_of_met (wf : P.program.WellFormed) {l : Location} (met : Met P.hierarchy q l) :
    P.Place q l := by
  cases met with
  | source connects => exact (place_of_flow wf connects).1
  | target connects => exact (place_of_flow wf connects).2
  | result called described assigned =>
    exact place_of_caller wf called described (by simp [Invoke.vars, assigned])
  | holds held => exact place_of_holds wf held

/-- The names in messages exist. -/
theorem exists_methodName (wf : P.program.WellFormed) {m : MethodId} {method : Method}
    (declared : P.program.methods[m.index]? = some method) :
    ∃ name, P.program.methodName m = .ok name :=
  (wf.methods m method declared).exists_methodName declared

/-- A call stands in the method that contains it. -/
theorem container_of_callIn (wf : P.program.WellFormed) {m : MethodId} {i : InvokeId} {call : Invoke}
    (site : CallIn P.hierarchy m i call) :
    call.container = m ∧ call.target.owner.index < P.program.classes.size ∧
      (call.kind = .static ↔ call.receiver = none) :=
  site.admitted wf

theorem exists_method_of_stmt {m : MethodId} {i : Nat} {stmt : Stmt}
    (stands : P.program.stmt? m i = some stmt) :
    ∃ method, P.program.methods[m.index]? = some method := by
  obtain ⟨method, declared, -⟩ := Program.stmt?_eq_some_iff.1 stands
  exact ⟨method, declared⟩

theorem exists_method_of_index {m : MethodId} (inside : m.index < P.program.methods.size) :
    ∃ method, P.program.methods[m.index]? = some method :=
  ⟨P.program.methods[m.index], Array.getElem?_eq_some_iff.2 ⟨inside, rfl⟩⟩

/-- Dispatch on an allocated object finds a declared method or nothing. -/
theorem exists_calleeOn (wf : P.program.WellFormed) {m : MethodId} {i : InvokeId} {call : Invoke}
    {site : AllocSite} {a : Allocation} (site' : CallIn P.hierarchy m i call)
    (allocates : P.program.allocation? site = some a) :
    ∃ found, P.hierarchy.calleeOn call a.ty = .ok found ∧
      ∀ m, found = some m → ∃ method, P.program.methods[m.index]? = some method := by
  have type : ∀ c, a.ty = .ref c → c.index < P.program.classes.size := by
    intro c same
    obtain ⟨method, lhs, -, stands, -⟩ := Program.allocation?_eq_some_iff.1 allocates
    exact (wf.stmts site.method site.position _ stands).allocated lhs (.ref c) (by rw [← same])
  obtain ⟨found, callee, inside⟩ :=
    Hierarchy.exists_calleeOn wf (container_of_callIn wf site').2.1 type
  exact ⟨found, callee, fun m same => exists_method_of_index (inside m same)⟩

/-- A method that can run is declared. -/
theorem exists_method_of_reachable (wf : P.program.WellFormed) {t : Trail} {m : MethodId}
    (reached : P.Derives q (.reachable ⟨t, m⟩)) :
    ∃ method, P.program.methods[m.index]? = some method := by
  cases reached with
  | step rule derived =>
    cases rule with
    | entry listed => exact exists_method_of_index (wf.entries m listed)
    | @callee kind site =>
      cases derived (.calls kind site ⟨t, m⟩) (by simp) with
      | step rule' derived' =>
        cases rule' with
        | callStatic site' kind' target =>
          obtain ⟨found, resolved, inside⟩ :=
            Hierarchy.exists_resolveStatic wf (container_of_callIn wf site').2.1
          rw [target] at resolved
          exact exists_method_of_index (inside m (Except.ok.inj resolved).symm)
        | callOn site' receiver target =>
          obtain ⟨found, callee, declared⟩ := exists_calleeOn wf site' target.allocation
          rw [target.callee] at callee
          exact declared m (Except.ok.inj callee).symm

end Problem

/-- A pointer of a variable is read as the variable under a trail with which its method can run. -/
theorem SolverState.Grounded.exists_varAt (wf : P.program.WellFormed) {s : SolverState P}
    (grounded : s.Grounded q) {p : PointerId} {c : ContextId} {v : VarId}
    (known : s.elements.pointers.get? p.index = some (.var c v)) :
    ∃ t var, s.trail? c = some t ∧ s.locationAt? p = some (.var t v) ∧
      P.program.vars[v.index]? = some var ∧ P.Derives q (.reachable ⟨t, var.method⟩) := by
  obtain ⟨l, read, place, met⟩ := grounded.exists_locationAt? known
  obtain ⟨t, trail, rfl⟩ := Option.map_eq_some_iff.1 place
  obtain ⟨var, declared, reached⟩ := Problem.place_of_met wf met
  exact ⟨t, var, trail, read, declared, reached⟩

/-- A use that is not a call. -/
def Use.IsAccess (use : Use) : Prop :=
  use.invoke? = none

/-- The locations that an access connects for an object, the source first. -/
def Use.ends? (c : ContextId) (x : CsObjId) : Use → Option (PointerKey × PointerKey)
  | .storeField f rhs => some (.var c rhs, .instanceField x f)
  | .loadField f lhs => some (.instanceField x f, .var c lhs)
  | .storeArray rhs => some (.var c rhs, .arrayIndex x)
  | .loadArray lhs => some (.arrayIndex x, .var c lhs)
  | .invoke _ => none

/-- What is wired for the one description of a call and its callee is wired for all. -/
theorem SolverState.wired_of {s : SolverState P} {i : InvokeId} {call : Invoke} {callee : MethodId}
    {method : Method} {t t' : Trail} (described : P.program.invokes[i.index]? = some call)
    (declared : P.program.methods[callee.index]? = some method)
    (passed : ∀ e ∈ call.args.zip method.params, s.FlowsTo (.var t e.1) (.var t' e.2))
    (returned : ∀ target, call.result = some target →
      (∃ p, s.locationAt? p = some (.var t target)) ∧
        ∀ v ∈ method.returned, s.FlowsTo (.var t' v) (.var t target)) :
    s.Wired ⟨t, i⟩ ⟨t', callee⟩ := by
  constructor
  · intro call' method' described' declared' e listed
    rw [described] at described'
    rw [declared] at declared'
    obtain rfl := Option.some.inj described'
    obtain rfl := Option.some.inj declared'
    exact passed e listed
  · intro call' target described' assigned
    rw [described] at described'
    obtain rfl := Option.some.inj described'
    exact (returned target assigned).1
  · intro call' method' target described' declared' assigned v mem
    rw [described] at described'
    rw [declared] at declared'
    obtain rfl := Option.some.inj described'
    obtain rfl := Option.some.inj declared'
    exact (returned target assigned).2 v mem

namespace Solve

variable (lawful : P.Lawful q) {s : SolverState P}
include lawful

/-! ## Accesses -/

section Accesses

variable {c : ContextId} {t : Trail} {v : VarId} {var : Var} {x : CsObjId} {o : HeapObj}
  (declared : P.program.vars[v.index]? = some var)
  (reached : P.Derives q (.reachable ⟨t, var.method⟩))
  (held : P.Derives q (.pointsTo (.var t v) o))
include declared reached held

theorem access_meets (grounded : s.Grounded q) (trail : s.trail? c = some t)
    (object : s.heapObj? x = some o) {use : Use} (has : var.uses.Has use) {k k' : PointerKey}
    (ends : use.ends? c x = some (k, k')) :
    Meets q s (flow k k') settled fun _ s' => s'.Served q t o use := by
  have wf := lawful.program
  have onVar : ∀ w, s.location? (.var c w) = some (.var t w) :=
    fun w => Option.map_eq_some_iff.2 ⟨t, trail, rfl⟩
  have onField : ∀ f, s.location? (.instanceField x f) = some (.instanceField o f) :=
    fun f => Option.map_eq_some_iff.2 ⟨o, object, rfl⟩
  have onArray : s.location? (.arrayIndex x) = some (.arrayIndex o) :=
    Option.map_eq_some_iff.2 ⟨o, object, rfl⟩
  obtain ⟨i, stmt, stands, use_⟩ := (wf.uses v var declared use).1 has
  cases use with
  | storeField f rhs =>
    obtain rfl := use_
    obtain ⟨rfl, rfl⟩ := Prod.mk.inj (Option.some.inj ends)
    exact flow_meets grounded (onVar rhs) (onField f) (.storeField reached held stands)
  | loadField f lhs =>
    obtain rfl := use_
    obtain ⟨rfl, rfl⟩ := Prod.mk.inj (Option.some.inj ends)
    exact flow_meets grounded (onField f) (onVar lhs) (.loadField reached held stands)
  | storeArray rhs =>
    obtain rfl := use_
    obtain ⟨rfl, rfl⟩ := Prod.mk.inj (Option.some.inj ends)
    exact flow_meets grounded (onVar rhs) onArray (.storeArray reached held stands)
  | loadArray lhs =>
    obtain rfl := use_
    obtain ⟨rfl, rfl⟩ := Prod.mk.inj (Option.some.inj ends)
    exact flow_meets grounded onArray (onVar lhs) (.loadArray reached held stands)
  | invoke i => cases ends

/-- An object that is new to a variable gets all field and array accesses of the variable. -/
theorem processAccesses_meets (grounded : s.Grounded q) (trail : s.trail? c = some t)
    (object : s.heapObj? x = some o) :
    Meets q s (processAccesses c v x) settled fun _ s' =>
      ∀ use, var.uses.Has use → use.IsAccess → s'.Served q t o use := by
  refine Meets.lookup (fetch_eq_ok_iff.2 declared) ?_
  have each : ∀ {s' : SolverState P}, s'.Grounded q → s.Grows s' → ∀ use, var.uses.Has use →
      ∀ k k', use.ends? c x = some (k, k') →
        Meets q s' (flow k k') settled fun _ s'' => s''.Served q t o use :=
    fun grounded' grow use has k k' ends => access_meets lawful declared reached held grounded'
      (grow.trail? trail) (grow.heapObj? object) has ends
  -- one loop over the uses of each kind
  have loop : ∀ {α : Type} {s₁ : SolverState P} {l : List α} (use : α → Use)
      {source target : α → PointerKey}, s₁.Grounded q → s.Grows s₁ →
      (∀ e ∈ l, var.uses.Has (use e)) → (∀ e, (use e).ends? c x = some (source e, target e)) →
      Meets q s₁ (l.forM fun e => flow (source e) (target e)) settled fun _ s' =>
        ∀ e ∈ l, s'.Served q t o (use e) := by
    intro α s₁ l use source target grounded₁ grow₁ has ends
    exact .forM grounded₁ (fun _ _ _ grow => grow.served) fun e listed s' grounded' grow =>
      each grounded' (grow₁.trans grow) (use e) (has e listed) _ _ (ends e)
  have storing := loop (fun e : FieldId × VarId => .storeField e.1 e.2) grounded (.refl s)
    (fun _ => id) fun _ => rfl
  refine Meets.bind storing fun _ s₁ grounded₁ grow₁ stored => ?_
  have loading := loop (fun e : FieldId × VarId => .loadField e.1 e.2) grounded₁ grow₁
    (fun _ => id) fun _ => rfl
  refine Meets.bind loading fun _ s₂ grounded₂ grow₂ loaded => ?_
  have grow₁₂ := grow₁.trans grow₂
  have storingArray := loop .storeArray grounded₂ grow₁₂ (fun _ => id) fun _ => rfl
  refine Meets.bind storingArray fun _ s₃ grounded₃ grow₃ storedArray => ?_
  have grow₁₃ := grow₁₂.trans grow₃
  have loadingArray := loop .loadArray grounded₃ grow₁₃ (fun _ => id) fun _ => rfl
  refine Meets.imp loadingArray fun _ s₄ grounded₄ grow₄ loadedArray => ?_
  intro use has access
  cases use with
  | storeField f rhs => exact ((grow₂.trans grow₃).trans grow₄).served (stored (f, rhs) has)
  | loadField f lhs => exact (grow₃.trans grow₄).served (loaded (f, lhs) has)
  | storeArray rhs => exact grow₄.served (storedArray rhs has)
  | loadArray lhs => exact loadedArray lhs has
  | invoke i => cases access

end Accesses

/-! ## Calls -/

/-- A call with the wrong number of arguments stops the analysis, and only such a call. -/
theorem checkArity_meets (grounded : s.Grounded q) {m : MethodId} {i : InvokeId} {call : Invoke}
    {callee : MethodId} {method : Method} (site : CallIn P.hierarchy m i call)
    (declared : P.program.methods[callee.index]? = some method)
    (bad : call.args.length ≠ method.params.length → BadCall P.hierarchy q) :
    Meets q s (checkArity call callee) settled fun _ _ =>
      call.args.length = method.params.length := by
  have wf := lawful.program
  refine Meets.lookup (fetch_eq_ok_iff.2 declared) ?_
  dsimp only
  split
  · rename_i unequal
    obtain ⟨position, stands⟩ := site.stmt
    obtain ⟨caller, declared'⟩ := Problem.exists_method_of_stmt stands
    rw [← (Problem.container_of_callIn wf site).1] at declared'
    obtain ⟨name, found⟩ := Problem.exists_methodName wf declared'
    obtain ⟨name', found'⟩ := Problem.exists_methodName wf declared
    exact .lookup found (.lookup found' (.throw grounded (bad unequal)))
  · rename_i equal
    exact .pure grounded (Classical.not_not.1 equal)

omit lawful

/-- Arguments of a call flow to parameters. -/
theorem arguments_meets (grounded : s.Grounded q) {i : InvokeId} {call : Invoke} {c c' : ContextId}
    {t t' : Trail} {kind : CallKind} {callee : MethodId} {method : Method}
    (described : P.program.invokes[i.index]? = some call)
    (declared : P.program.methods[callee.index]? = some method) (trail : s.trail? c = some t)
    (trail' : s.trail? c' = some t') (called : P.Derives q (.calls kind ⟨t, i⟩ ⟨t', callee⟩)) :
    Meets q s ((call.args.zip method.params).forM fun (arg, param) =>
      flow (.var c arg) (.var c' param)) settled fun _ s' => ∀ e ∈ call.args.zip method.params,
        s'.FlowsTo (.var t e.1) (.var t' e.2) := by
  refine .forM grounded (fun _ _ _ grow => grow.flowsTo) fun e listed s' grounded' grow => ?_
  exact flow_meets grounded' (Option.map_eq_some_iff.2 ⟨t, grow.trail? trail, rfl⟩)
    (Option.map_eq_some_iff.2 ⟨t', grow.trail? trail', rfl⟩)
    (.argument called described declared listed)

/-- Returned variables flow to the result of a call. -/
theorem returned_meets (grounded : s.Grounded q) {i : InvokeId} {call : Invoke} {c' : ContextId}
    {t t' : Trail} {kind : CallKind} {callee : MethodId} {method : Method} {target : VarId}
    {p : PointerId} (described : P.program.invokes[i.index]? = some call)
    (declared : P.program.methods[callee.index]? = some method)
    (assigned : call.result = some target) (at_ : s.locationAt? p = some (.var t target))
    (trail' : s.trail? c' = some t') (called : P.Derives q (.calls kind ⟨t, i⟩ ⟨t', callee⟩)) :
    Meets q s (method.returned.forM fun v => do
      let source ← pointer (.var c' v)
      let _ ← addFlow source p) settled
      fun _ s' => ∀ v ∈ method.returned, s'.FlowsTo (.var t' v) (.var t target) := by
  refine .forM grounded (fun _ _ _ grow => grow.flowsTo) fun v listed s₁ grounded₁ grow₁ => ?_
  have connects : Flow P.hierarchy (P.Derives q) (.var t' v) (.var t target) :=
    .result called described declared assigned listed
  have read : s₁.location? (.var c' v) = some (.var t' v) :=
    Option.map_eq_some_iff.2 ⟨t', grow₁.trail? trail', rfl⟩
  refine (pointer_meets grounded₁ read (.source connects)).bind
    fun p' s₂ grounded₂ grow₂ at' => ?_
  have at₂ := (grow₁.trans grow₂).locationAt? at_
  refine (addFlow_meets grounded₂ ⟨_, _, at', at₂, connects⟩).bind
    fun _ s₃ grounded₃ grow₃ known => .pure grounded₃ ?_
  exact ⟨_, known, grow₃.locationAt? at', grow₃.locationAt? at₂⟩

/-- Arguments of a call flow to parameters and returned variables to the result. -/
theorem wireCall_meets (grounded : s.Grounded q) {i : InvokeId} {call : Invoke} {c c' : ContextId}
    {t t' : Trail} {kind : CallKind} {callee : MethodId} {method : Method}
    (described : P.program.invokes[i.index]? = some call)
    (declared : P.program.methods[callee.index]? = some method) (trail : s.trail? c = some t)
    (trail' : s.trail? c' = some t')
    (called : P.Derives q (.calls kind ⟨t, i⟩ ⟨t', callee⟩)) :
    Meets q s (wireCall c call c' callee) settled fun _ s' => s'.Wired ⟨t, i⟩ ⟨t', callee⟩ := by
  refine Meets.lookup (fetch_eq_ok_iff.2 declared) ?_
  have arguments := arguments_meets grounded described declared trail trail' called
  refine arguments.bind fun _ s₁ grounded₁ grow₁ passed => ?_
  cases assigned : call.result with
  | none =>
    exact .pure grounded₁ (SolverState.wired_of described declared passed (by simp [assigned]))
  | some target =>
    have read : s₁.location? (.var c target) = some (.var t target) :=
      Option.map_eq_some_iff.2 ⟨t, grow₁.trail? trail, rfl⟩
    refine (pointer_meets grounded₁ read (.result called described assigned)).bind
      fun p s₂ grounded₂ grow₂ at_ => ?_
    refine (returned_meets grounded₂ described declared assigned at_
      ((grow₁.trans grow₂).trail? trail') called).imp fun _ s₃ _ grow₃ returned => ?_
    refine SolverState.wired_of described declared
      (fun e listed => (grow₂.trans grow₃).flowsTo (passed e listed)) fun target' same => ?_
    rw [assigned] at same
    rw [← Option.some.inj same]
    exact ⟨⟨p, grow₃.locationAt? at_⟩, returned⟩

end Solve

end PointsTo
