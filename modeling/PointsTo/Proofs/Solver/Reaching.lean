import PointsTo.Proofs.Solver.Seeding

/-!
# Visits and calls on objects

A visit handles the fact that a method can run. A call on an object that is new to its receiver
variable makes the called method reachable, hands it the object and wires it up.
-/

namespace PointsTo

open Inclusion

variable {P : Problem} {q : Policy}

namespace SolverState

variable {s : SolverState P}

/-- A method that is made reachable adds one fact. -/
theorem holds_of_addReachable {m : CsMethodId} {a : Activation} (sites : List CsCallSiteId)
    (new : s.callGraph.isReachable m = false) (read : s.activation? m = some a) {f : Fact}
    (holds : SolverState.Holds { s with callGraph := (s.callGraph.addReachable m sites).2 } f) :
    s.Holds f ∨ f = .reachable a := by
  cases f with
  | reachable b =>
    obtain ⟨m', listed, read'⟩ := holds
    rw [CallGraph.reachable_addReachable sites new] at listed
    rcases Table.mem_toList_intern.1 listed with old | rfl
    · exact Or.inl ⟨m', old, read'⟩
    · have same : s.activation? m' = some b := read'
      rw [read] at same
      rw [Option.some.inj same]
      exact Or.inr rfl
  | pointsTo l o => exact Or.inl holds
  | calls kind site b =>
    obtain ⟨e, listed, rest⟩ := holds
    rw [CallGraph.edges_addReachable] at listed
    exact Or.inl ⟨e, listed, rest⟩

/-- A state stays grounded with a method that can run and the calls of its body. -/
theorem Grounded.addReachable (grounded : s.Grounded q) {m : CsMethodId} {a : Activation}
    {sites : List CsCallSiteId} (new : s.callGraph.isReachable m = false)
    (read : s.activation? m = some a) (reached : P.Derives q (.reachable a)) {method : Method}
    (declared : P.program.methods[a.method.index]? = some method)
    (calls : sites.map s.callPoint? =
      (method.body.toList.filterMap Stmt.call?).map fun i => some ⟨a.trail, i⟩) :
    SolverState.Grounded q { s with callGraph := (s.callGraph.addReachable m sites).2 } := by
  have grow := Solve.grows_of_change (.reachable sites new) rfl rfl
  refine grounded.grow grow (.of_parts grounded rfl rfl (.of_eq rfl rfl rfl rfl)
    (.of_eq (fun _ _ => id) rfl rfl) ⟨?_, ?_, ?_, ?_⟩)
  · rw [CallGraph.entries_addReachable]
    exact fun _ => Or.inl
  · intro m' mem
    rw [CallGraph.reachable_addReachable sites new] at mem
    rcases Table.mem_toList_intern.1 mem with old | rfl
    · exact Or.inl old
    · exact Or.inr (grow.groundedReachable ⟨_, read, reached⟩)
  · intro m' mem
    have lookup := CallGraph.sitesIn_addReachable sites new m'
    by_cases same : m = m'
    · subst same
      rw [if_pos rfl] at lookup
      refine Or.inr ⟨_, method, grow.activation? read, declared, ?_⟩
      rw [lookup]
      exact calls
    · rw [if_neg same] at lookup
      rw [CallGraph.reachable_addReachable sites new] at mem
      exact Or.inl ⟨(Table.mem_toList_intern.1 mem).resolve_right (Ne.symm same), lookup⟩
  · rw [CallGraph.edges_addReachable]
    exact fun _ => Or.inl

end SolverState

namespace Solve

variable (lawful : P.Lawful q) {s : SolverState P}
include lawful

/-! ## Visits -/

theorem seedNew_meets (grounded : s.Grounded q) {m : CsMethodId} {x : CsMethod}
    (known : s.elements.methods.get? m.index = some x) {t : Trail}
    (trail : s.trail? x.context = some t) {method : Method} (declared : P.program.methods[x.method.index]? = some method)
    {sites : List CsCallSiteId} (calls : sites.map s.callPoint? =
      (method.body.toList.filterMap Stmt.call?).map fun i => some ⟨t, i⟩) :
    Meets q s (seedNew m x sites) id fun callees s' =>
      (∀ x ∈ callees, s'.Known x) ∧ m ∈ s'.callGraph.reachable.toList := by
  have run := seedNew_run s m x sites
  obtain ⟨t', trail', read, reached⟩ := grounded.exists_activation? known
  rw [trail] at trail'
  obtain rfl := Option.some.inj trail'
  cases listed : s.callGraph.isReachable m with
  | true =>
    rw [if_pos listed] at run
    exact .of_ok run grounded (.refl _ s) ⟨by simp, CallGraph.isReachable_iff.1 listed⟩
  | false =>
    rw [if_neg (by simp [listed])] at run
    have grow := grows_of_change (.reachable sites listed) rfl rfl
    have grounded' := grounded.addReachable listed read reached declared calls
    have mem : m ∈ (s.callGraph.addReachable m sites).2.reachable.toList := by
      rw [CallGraph.reachable_addReachable sites listed]
      exact Table.mem_toList_intern.2 (Or.inr rfl)
    refine Meets.of_added run grow (SolverState.holds_of_addReachable sites listed read) ?_
    refine (seedMethod_meets lawful reached grounded' declared trail).imp
      fun callees s' _ grow' ⟨known', handled⟩ => ?_
    exact ⟨⟨known', grow'.reachable.subset mem⟩, fun f same => same ▸ handled,
      fun kind site b same => by cases same⟩

omit lawful in
/-- Calls are interned one after the other. -/
theorem csCallSites_meets (grounded : s.Grounded q) {c : ContextId} {t : Trail}
    (trail : s.trail? c = some t) (invokes : List InvokeId)
    (inside : ∀ i ∈ invokes, i.index < P.program.invokes.size) :
    Meets q s (invokes.mapM (csCallSite c)) settled fun sites s' =>
      sites.map s'.callPoint? = invokes.map fun i => some ⟨t, i⟩ := by
  induction invokes generalizing s with
  | nil => exact .pure grounded rfl
  | cons i invokes ih =>
    rw [List.mapM_cons]
    refine (csCallSite_meets grounded trail (inside i (by simp))).bind
      fun j s₁ grounded₁ grow₁ point => ?_
    refine (ih grounded₁ (grow₁.trail? trail) fun i' mem => inside i' (by simp [mem])).bind
      fun sites s₂ grounded₂ grow₂ points => .pure grounded₂ ?_
    rw [List.map_cons, List.map_cons, grow₂.callPoint? point, points]

/-- A visited method is reachable afterwards. -/
theorem visit_meets (grounded : s.Grounded q) {m : CsMethodId} (known : s.Known m) :
    Meets q s (visit m) id fun callees s' =>
      (∀ x ∈ callees, s'.Known x) ∧ m ∈ s'.callGraph.reachable.toList := by
  have wf := lawful.program
  obtain ⟨a, read⟩ := known
  obtain ⟨c, present, trail⟩ := SolverState.activation?_eq_some_iff.1 read
  obtain ⟨t, -, -, reached⟩ := grounded.exists_activation? present
  obtain ⟨method, declared⟩ := Problem.exists_method_of_reachable wf reached
  rw [visit_eq]
  refine Meets.get (Meets.lookup (a := ⟨c, a.method⟩) (fetch_eq_ok_iff.2 present) ?_)
  have invokes : P.program.invokesIn a.method = .ok (method.body.toList.filterMap Stmt.call?) := by
    have found : P.program.methodAt a.method = .ok method := fetch_eq_ok_iff.2 declared
    rw [Program.invokesIn, found]
    rfl
  refine Meets.lookup invokes ?_
  have inside : ∀ i ∈ method.body.toList.filterMap Stmt.call?,
      i.index < P.program.invokes.size := by
    intro i mem
    obtain ⟨stmt, listed, call⟩ := List.mem_filterMap.1 mem
    obtain ⟨position, stands⟩ := Array.mem_iff_getElem?.1 (Array.mem_toList_iff.1 listed)
    have stands' : P.program.stmt? a.method position = some stmt :=
      Program.stmt?_eq_some_iff.2 ⟨method, declared, stands⟩
    cases stmt <;> cases call
    obtain ⟨call, described, -⟩ := (wf.stmts _ position _ stands').called i rfl
    exact (Array.getElem?_eq_some_iff.1 described).1
  refine (csCallSites_meets grounded trail _ inside).bind fun sites s₁ grounded₁ grow₁ points => ?_
  exact seedNew_meets lawful grounded₁ (Table.get?_of_prefix grow₁.methods present)
    (grow₁.trail? trail) declared points

/-- All methods of the stack are reachable afterwards, and all methods of their static calls. -/
theorem visitAll_meets (rounds : Nat) (stack : List CsMethodId) {s : SolverState P}
    (grounded : s.Grounded q) (known : ∀ m ∈ stack, s.Known m) :
    Meets q s (visitAll rounds stack) settled fun _ s' =>
      ∀ m ∈ stack, m ∈ s'.callGraph.reachable.toList := by
  induction rounds generalizing stack s with
  | zero =>
    cases stack with
    | nil => exact .pure grounded (by simp)
    | cons m rest => exact .of_error rfl grounded (.refl s) trivial
  | succ rounds ih =>
    cases stack with
    | nil => exact .pure grounded (by simp)
    | cons m rest =>
      -- the callees that the visit owes are on the stack of the remaining rounds
      refine (visit_meets lawful grounded (known m (by simp))).bind_debt
        fun callees s₁ grounded₁ progress ⟨known₁, visited⟩ => ?_
      have known' : ∀ x ∈ callees ++ rest, s₁.Known x := by
        intro x mem
        rcases List.mem_append.1 mem with new | old
        · exact known₁ x new
        · exact progress.toGrows.known (known x (by simp [old]))
      refine (ih (callees ++ rest) grounded₁ known').imp fun _ s₂ _ grow₂ all => ?_
      refine ⟨?_, fun x mem => Or.inr (all x (List.mem_append_left _ mem))⟩
      refine List.forall_mem_cons.2 ⟨grow₂.reachable.subset visited, fun x mem => ?_⟩
      exact all x (List.mem_append_right _ mem)

theorem addReachable_meets (grounded : s.Grounded q) {m : CsMethodId} (known : s.Known m) :
    Meets q s (addReachable m) settled fun _ s' => m ∈ s'.callGraph.reachable.toList :=
  (visitAll_meets lawful P.limit [m] grounded (by simpa using known)).imp
    fun _ _ _ _ all => all m (by simp)

/-! ## Calls on objects -/

/-- The method that a call reaches becomes reachable and is wired up, unless the call was known. -/
theorem reach_meets (grounded : s.Grounded q) {i : InvokeId} {call : Invoke} {callee : MethodId}
    {method : Method} {c c' : ContextId} {t t' : Trail}
    (described : P.program.invokes[i.index]? = some call)
    (declared : P.program.methods[callee.index]? = some method)
    (callable : P.program.Callable call callee) (trail : s.trail? c = some t)
    (trail' : s.trail? c' = some t')
    (calls : P.Derives q (.calls call.kind ⟨t, i⟩ ⟨t', callee⟩)) :
    Meets q s (do
      let site ← csCallSite c i
      let m ← csMethod c' callee
      if ← addCallEdge ⟨call.kind, site, m⟩ then
        addReachable m
        wireCall c call c' callee) settled
      fun _ s' => s'.Holds (.calls call.kind ⟨t, i⟩ ⟨t', callee⟩) := by
  have inside : i.index < P.program.invokes.size := (Array.getElem?_eq_some_iff.1 described).1
  refine (csCallSite_meets grounded trail inside).bind fun j s₁ grounded₁ grow₁ point => ?_
  refine (csMethod_meets grounded₁ (grow₁.trail? trail') (.one .callee calls)).bind
    fun m s₂ grounded₂ grow₂ read => ?_
  have callable' : ∀ call', P.program.invokes[i.index]? = some call' →
      P.program.Callable call' callee := by
    intro call' described'
    obtain rfl := Option.some.inj (described.symm.trans described')
    exact callable
  refine addCallEdge_meets grounded₂ (e := ⟨call.kind, j, m⟩) (grow₂.callPoint? point) read calls
    callable' (fun holds => .pure grounded₂ holds) fun s₃ grounded₃ grow₃ holds => ?_
  refine (addReachable_meets lawful grounded₃ ⟨_, grow₃.activation? read⟩).bind
    fun _ s₄ grounded₄ grow₄ visited => ?_
  have grow := ((grow₁.trans grow₂).trans grow₃).trans grow₄
  refine (wireCall_meets grounded₄ described declared (grow.trail? trail) (grow.trail? trail')
    calls).imp fun _ s₅ _ grow₅ wired => ?_
  exact ⟨(grow₄.trans grow₅).holds holds, wired, Or.inr (grow₅.reachable.subset visited)⟩

/-- A call on an object hands the object to the called method. -/
theorem callOn_meets (grounded : s.Grounded q) {m : MethodId} {i : InvokeId} {call : Invoke}
    {c : ContextId} {t : Trail} {v : VarId} {x : CsObjId} {cs : CsObj} {obj : Obj} {o : HeapObj}
    {callee : MethodId} (site : CallIn P.hierarchy m i call) (receiver : call.receiver = some v)
    (reached : P.Derives q (.reachable ⟨t, m⟩)) (held : P.Derives q (.pointsTo (.var t v) o))
    (trail : s.trail? c = some t) (present : s.elements.objects.get? x.index = some cs)
    (found : s.objects[cs.obj.index]? = some obj) (object : s.heapObj? x = some o)
    (target : Dispatches P.hierarchy call o ⟨obj.ty, obj.containerClass⟩ callee) :
    Meets q s (callOn c i call x cs obj callee) settled fun _ s' =>
      P.program.Fitting call callee ∧
      s'.Holds (.calls call.kind ⟨t, i⟩
        ⟨q.receiverTrail t i o ⟨obj.ty, obj.containerClass⟩, callee⟩) ∧
      ∀ method, P.program.methods[callee.index]? = some method →
        ∃ self, method.receiver = some self ∧
          s'.Sends (.var (q.receiverTrail t i o ⟨obj.ty, obj.containerClass⟩) self) o := by
  have wf := lawful.program
  have inside : i.index < P.program.invokes.size := (Array.getElem?_eq_some_iff.1 site.call).1
  obtain ⟨called, found', exists_⟩ := Problem.exists_calleeOn wf site target.allocation
  rw [target.callee] at found'
  obtain ⟨method, declared⟩ := exists_ callee (Except.ok.inj found').symm
  obtain ⟨cs', obj', present', foundObj, trail', place⟩ :=
    SolverState.heapObj?_eq_some_iff.1 object
  rw [present] at present'
  obtain rfl := Option.some.inj present'
  rw [found] at foundObj
  obtain rfl := Option.some.inj foundObj
  generalize entered : q.receiverTrail t i o ⟨obj.ty, obj.containerClass⟩ = t'
  have calls : P.Derives q (.calls call.kind ⟨t, i⟩ ⟨t', callee⟩) :=
    entered ▸ .two (.callOn site receiver target) reached held
  refine (receiverContext_meets lawful grounded trail inside trail' found place
    (entered ▸ .one .callee calls)).bind fun c' s₁ grounded₁ grow₁ context => ?_
  rw [entered] at context
  refine Meets.lookup (fetch_eq_ok_iff.2 declared) ?_
  cases bound : method.receiver with
  | none =>
    obtain ⟨name, found⟩ := Problem.exists_methodName wf declared
    exact .lookup found (.throw grounded₁
      (.onObject reached site receiver held target declared bound found))
  | some self =>
    refine (checkArity_meets lawful grounded₁ site declared fun unequal =>
      .onObject reached site receiver held target declared (Or.inr unequal)).bind
        fun _ s₂ grounded₂ grow₂ equal => ?_
    have read : s₂.location? (.var c' self) = some (.var t' self) :=
      Option.map_eq_some_iff.2 ⟨t', grow₂.trail? context, rfl⟩
    have bound' : P.Derives q (.pointsTo (.var t' self) o) :=
      entered ▸ .two (.receiver site receiver target declared bound) reached held
    have grow₁₂ := grow₁.trans grow₂
    have fitting : P.program.Fitting call callee := (Program.fitting_iff declared).2 equal
    have callable : P.program.Callable call callee :=
      (Program.callable_iff declared).2 ⟨equal, fun _ => by simp [bound]⟩
    refine (deliver_meets grounded₂ read (grow₁₂.heapObj? object) bound').bind_pair
      fun _ s₃ grounded₃ grow₃ sends => ?_
    refine (reach_meets lawful grounded₃ site.call declared callable
      ((grow₁₂.trans grow₃).trail? trail) ((grow₂.trans grow₃).trail? context) calls).imp
        fun _ s₄ _ grow₄ holds => ⟨fitting, holds, ?_⟩
    · intro method' declared'
      rw [declared] at declared'
      rw [← Option.some.inj declared']
      exact ⟨self, bound, grow₄.sends sends⟩

section Objects

variable {c : ContextId} {t : Trail} {v : VarId} {var : Var} {x : CsObjId} {o : HeapObj}
  (declared : P.program.vars[v.index]? = some var)
  (reached : P.Derives q (.reachable ⟨t, var.method⟩))
  (held : P.Derives q (.pointsTo (.var t v) o))
include declared reached held

/-- A call on a variable is made on an object that is new to the variable. -/
theorem resolveCall_meets (grounded : s.Grounded q) {cs : CsObj} {i : InvokeId}
    (has : var.uses.Has (.invoke i)) (trail : s.trail? c = some t)
    (present : s.elements.objects.get? x.index = some cs) (object : s.heapObj? x = some o) :
    Meets q s (resolveCall c x cs i) settled fun _ s' => s'.Served q t o (.invoke i) := by
  have wf := lawful.program
  obtain ⟨position, stmt, stands, use_⟩ := (wf.uses v var declared (.invoke i)).1 has
  obtain ⟨rfl, call, described, receiver⟩ := use_
  have site : CallIn P.hierarchy var.method i call := ⟨⟨position, stands⟩, described⟩
  obtain ⟨cs', obj, present', found, trail', place⟩ := SolverState.heapObj?_eq_some_iff.1 object
  rw [present] at present'
  obtain rfl := Option.some.inj present'
  have allocates := (lawful.heap.allocated grounded.heap found).2
  have lookup : P.heapModel.objectAt s.heap cs.obj = .ok obj := by
    rw [lawful.heap.objectAt]
    exact fetch_eq_ok_iff.2 found
  have only : ∀ {call' a callee}, P.program.invokes[i.index]? = some call' →
      Dispatches P.hierarchy call' o a callee →
      call' = call ∧ a = ⟨obj.ty, obj.containerClass⟩ := by
    intro call' a callee described' target
    rw [described] at described'
    refine ⟨(Option.some.inj described').symm, ?_⟩
    have same := target.allocation
    rw [← place] at same
    exact Option.some.inj (same.symm.trans allocates)
  refine Meets.lookup (fetch_eq_ok_iff.2 described) (Meets.get (Meets.lookup lookup ?_))
  split
  · rename_i kind
    refine .pure grounded fun call' a callee described' target => ?_
    obtain ⟨rfl, -⟩ := only described' target
    exact absurd kind target.dynamic
  · rename_i dynamic
    obtain ⟨called, callee_, -⟩ := Problem.exists_calleeOn wf site allocates
    refine Meets.lookup callee_ ?_
    cases called with
    | none =>
      refine (countUnresolved_meets grounded).imp
        fun _ s' _ _ _ call' a callee described' target => ?_
      obtain ⟨rfl, rfl⟩ := only described' target
      rw [target.callee] at callee_
      cases callee_
    | some callee =>
      have target : Dispatches P.hierarchy call o ⟨obj.ty, obj.containerClass⟩ callee := by
        refine ⟨dynamic, ?_, callee_⟩
        rw [← place]
        exact allocates
      refine (callOn_meets lawful grounded site receiver reached held trail present found object
        target).imp fun _ s' _ _ done call' a callee' described' target' => ?_
      obtain ⟨rfl, rfl⟩ := only described' target'
      have same := target'.callee
      rw [callee_] at same
      obtain rfl := Option.some.inj (Except.ok.inj same)
      exact done

theorem processCall_meets (grounded : s.Grounded q) (trail : s.trail? c = some t)
    (object : s.heapObj? x = some o) :
    Meets q s (processCall c v x) settled fun _ s' =>
      ∀ i, var.uses.Has (.invoke i) → s'.Served q t o (.invoke i) := by
  obtain ⟨cs, obj, present, -⟩ := SolverState.heapObj?_eq_some_iff.1 object
  refine Meets.get (Meets.lookup (fetch_eq_ok_iff.2 present) ?_)
  refine Meets.lookup (fetch_eq_ok_iff.2 declared) ?_
  refine .forM grounded (fun _ _ _ grow => grow.served) fun i listed s' grounded' grow => ?_
  exact resolveCall_meets lawful declared reached held grounded' listed (grow.trail? trail)
    (Table.get?_of_prefix grow.csObjects present) (grow.heapObj? object)

/-- An object that is new to a variable gets all that its arrival asks for. -/
theorem processObject_meets (grounded : s.Grounded q) (trail : s.trail? c = some t)
    (object : s.heapObj? x = some o) :
    Meets q s (processObject c v x) settled fun _ s' => s'.Handled q (.pointsTo (.var t v) o) := by
  refine (processAccesses_meets lawful declared reached held grounded trail object).bind
    fun _ s₁ grounded₁ grow₁ accesses => ?_
  refine (processCall_meets lawful declared reached held grounded₁ (grow₁.trail? trail)
    (grow₁.heapObj? object)).imp fun _ s₂ _ grow₂ calls var' declared' use has => ?_
  rw [declared] at declared'
  obtain rfl := Option.some.inj declared'
  cases use with
  | invoke i => exact calls i has
  | _ => exact grow₂.served (accesses _ has rfl)

end Objects

end Solve

end PointsTo
