import PointsTo.Proofs.Solver.Wiring

/-!
# Static calls and reachable methods

A method that becomes reachable gets everything that its statements ask for. The methods of its
static calls are left to be visited; the stack of such methods is worked off, so in the end they are
all reachable.
-/

namespace PointsTo

open Inclusion

variable {P : Problem} {q : Policy}

namespace SolverState

/-- A method under a context stands for something. -/
def Known (s : SolverState P) (m : CsMethodId) : Prop :=
  ∃ a, s.activation? m = some a

variable {s s' : SolverState P}

theorem Grows.known (grow : s.Grows s') {m : CsMethodId} (known : s.Known m) : s'.Known m := by
  obtain ⟨a, read⟩ := known
  exact ⟨a, grow.activation? read⟩

/-- A new edge of the call graph adds one fact. -/
theorem holds_of_callEdge {e : CallEdge .csCallSite .csMethod}
    {site : CallPoint} {a : Activation} (point : s.callPoint? e.site = some site)
    (callee : s.activation? e.callee = some a) {f : Fact}
    (holds : SolverState.Holds { s with callGraph := (s.callGraph.addEdge e).2 } f) :
    s.Holds f ∨ f = .calls e.kind site a := by
  cases f with
  | reachable b =>
    obtain ⟨m, listed, read⟩ := holds
    rw [CallGraph.reachable_addEdge] at listed
    exact Or.inl ⟨m, listed, read⟩
  | pointsTo l o => exact Or.inl holds
  | calls kind site' b =>
    obtain ⟨e', listed, rfl, point', callee'⟩ := holds
    rcases CallGraph.mem_edges_addEdge.1 listed with old | rfl
    · exact Or.inl ⟨e', old, rfl, point', callee'⟩
    · have site_ : s.callPoint? e'.site = some site' := point'
      have callee_ : s.activation? e'.callee = some b := callee'
      rw [point] at site_
      rw [callee] at callee_
      rw [Option.some.inj site_, Option.some.inj callee_]
      exact Or.inr rfl

/-- A state stays grounded with a call that can be made and that the rules derive. -/
theorem Grounded.addEdge (grounded : s.Grounded q) {e : CallEdge .csCallSite .csMethod}
    {site : CallPoint} {a : Activation} (point : s.callPoint? e.site = some site)
    (callee : s.activation? e.callee = some a) (derived : P.Derives q (.calls e.kind site a))
    (callable : ∀ call, P.program.invokes[site.invoke.index]? = some call →
      P.program.Callable call a.method) :
    SolverState.Grounded q { s with callGraph := (s.callGraph.addEdge e).2 } := by
  have grow := Solve.grows_of_change (.callEdge s e) rfl rfl
  refine grounded.grow grow (.of_parts grounded rfl rfl (.of_eq rfl rfl rfl rfl)
    (.of_eq (fun _ _ => id) rfl rfl) ⟨?_, ?_, ?_, ?_⟩)
  · rw [CallGraph.entries_addEdge]
    exact fun _ => Or.inl
  · rw [CallGraph.reachable_addEdge]
    exact fun _ => Or.inl
  · intro m mem
    have old : m ∈ (s.callGraph.addEdge e).2.reachable.toList := mem
    rw [CallGraph.reachable_addEdge] at old
    exact Or.inl ⟨old, CallGraph.sitesIn_addEdge s.callGraph e m⟩
  · intro e' listed
    rcases CallGraph.mem_edges_addEdge.1 listed with known | rfl
    · exact Or.inl known
    · exact Or.inr ⟨grow.groundedCall ⟨site, a, point, callee, derived⟩,
        grow.passingCall ⟨site, a, point, callee, callable⟩⟩

end SolverState

namespace Solve

variable {s : SolverState P}

/-- A call that is new is wired, and its callee is left to be visited or visited; one that is known
has been. -/
theorem addCallEdge_meets {β : Type} {f : Bool → Solve P β} {debt : β → List CsMethodId}
    {post : β → SolverState P → Prop} (grounded : s.Grounded q)
    {e : CallEdge .csCallSite .csMethod} {site : CallPoint} {a : Activation}
    (point : s.callPoint? e.site = some site) (callee : s.activation? e.callee = some a)
    (derived : P.Derives q (.calls e.kind site a))
    (callable : ∀ call, P.program.invokes[site.invoke.index]? = some call →
      P.program.Callable call a.method)
    (old : s.Holds (.calls e.kind site a) → Meets q s (f false) debt post)
    (new : ∀ s', s'.Grounded q → s.Grows s' → s'.Holds (.calls e.kind site a) →
      Meets q s' (f true) debt fun b s'' => post b s'' ∧ s''.Wired site a ∧
        (e.callee ∈ debt b ∨ e.callee ∈ s''.callGraph.reachable.toList)) :
    Meets q s (addCallEdge e >>= f) debt post := by
  cases isNew : (s.callGraph.addEdge e).1 with
  | false =>
    have known := CallGraph.mem_edges_of_addEdge_eq_false isNew
    have same : (s.callGraph.addEdge e).2 = s.callGraph := by
      rw [CallGraph.addEdge, if_pos (Table.contains_iff.2 known)]
    have run : (addCallEdge e >>= f) s = f false s := by
      rw [bind_run, addCallEdge_run, isNew, same]
    have meets := old ⟨e, known, rfl, point, callee⟩
    unfold Meets at meets ⊢
    rw [run]
    exact meets
  | true =>
    have run : (addCallEdge e >>= f) s =
        f true { s with callGraph := (s.callGraph.addEdge e).2 } := by
      rw [bind_run, addCallEdge_run, isNew]
    have grow := grows_of_change (.callEdge s e) rfl rfl
    have grounded' := grounded.addEdge point callee derived callable
    have holds : SolverState.Holds { s with callGraph := (s.callGraph.addEdge e).2 }
        (.calls e.kind site a) :=
      ⟨e, CallGraph.mem_edges_addEdge.2 (Or.inr rfl), rfl, point, callee⟩
    refine Meets.of_added run grow (SolverState.holds_of_callEdge point callee) ?_
    refine (new _ grounded' grow holds).imp fun b s'' _ grow' reached => ?_
    obtain ⟨result, wired, visited⟩ := reached
    refine ⟨result, fun f same => same ▸ wired, fun kind site' a' same => ?_⟩
    obtain ⟨-, -, rfl⟩ := Fact.calls.inj same
    have read := (grow.trans grow').activation? callee
    rcases visited with owed | listed
    · exact Or.inr ⟨e.callee, owed, read⟩
    · exact Or.inl ⟨e.callee, listed, read⟩

variable (lawful : P.Lawful q)
include lawful

/-! ## Statements -/

/-- A static call calls the method that it resolves to, if there is one. -/
theorem callStatic_meets (grounded : s.Grounded q) {m : MethodId} {i : InvokeId} {call : Invoke}
    {c : ContextId} {t : Trail} (site : CallIn P.hierarchy m i call) (kind : call.kind = .static)
    (reached : P.Derives q (.reachable ⟨t, m⟩)) (trail : s.trail? c = some t) :
    Meets q s (callStatic c i call) Option.toList fun called s' =>
      (∀ x ∈ called, s'.Known x) ∧
      ∀ callee, P.hierarchy.resolveStatic call.target = .ok (some callee) →
        P.program.Fitting call callee ∧
          s'.Holds (.calls .static ⟨t, i⟩ ⟨q.callTrail t i, callee⟩) := by
  have wf := lawful.program
  obtain ⟨found, target, declared⟩ :=
    Hierarchy.exists_resolveStatic wf (Problem.container_of_callIn wf site).2.1
  refine Meets.lookup target ?_
  cases found with
  | none =>
    refine (countUnresolved_meets grounded).bind fun _ s₁ grounded₁ _ _ => .pure grounded₁ ?_
    refine ⟨by simp, fun callee resolved => ?_⟩
    rw [target] at resolved
    cases resolved
  | some callee =>
    obtain ⟨method, declared'⟩ := exists_fetch_eq_ok_iff.2 (declared callee rfl)
    have declared : P.program.methods[callee.index]? = some method := fetch_eq_ok_iff.1 declared'
    have inside := (Array.getElem?_eq_some_iff.1 site.call).1
    have calls : P.Derives q (.calls .static ⟨t, i⟩ ⟨q.callTrail t i, callee⟩) :=
      .one (.callStatic site kind target) reached
    refine (csCallSite_meets grounded trail inside).bind fun j s₁ grounded₁ grow₁ point => ?_
    refine (callContext_meets lawful grounded₁ (grow₁.trail? trail) inside (.one .callee calls)).bind
      fun c' s₂ grounded₂ grow₂ trail' => ?_
    refine (checkArity_meets lawful grounded₂ site declared fun unequal =>
      .static reached site kind target declared unequal).bind fun _ s₃ grounded₃ grow₃ equal => ?_
    have fitting : P.program.Fitting call callee := (Program.fitting_iff declared).2 equal
    have callable : ∀ call', P.program.invokes[i.index]? = some call' →
        P.program.Callable call' callee := by
      intro call' described
      obtain rfl := Option.some.inj (site.call.symm.trans described)
      exact (Program.callable_iff declared).2 ⟨equal, absurd kind⟩
    refine (csMethod_meets grounded₃ (grow₃.trail? trail') (.one .callee calls)).bind
      fun x s₄ grounded₄ grow₄ read => ?_
    have grow₁₄ := (grow₂.trans grow₃).trans grow₄
    -- the answer is the same whether the edge is new or not
    have answer : ∀ s' : SolverState P, s'.Holds (.calls .static ⟨t, i⟩ ⟨q.callTrail t i, callee⟩) →
        ∀ callee', P.hierarchy.resolveStatic call.target = .ok (some callee') →
          P.program.Fitting call callee' ∧
            s'.Holds (.calls .static ⟨t, i⟩ ⟨q.callTrail t i, callee'⟩) := by
      intro s' holds callee' resolved
      rw [target] at resolved
      obtain rfl := Option.some.inj (Except.ok.inj resolved)
      exact ⟨fitting, holds⟩
    refine addCallEdge_meets grounded₄ (e := ⟨.static, j, x⟩) (grow₁₄.callPoint? point) read calls
      callable (fun holds => .pure grounded₄ ⟨by simp, answer s₄ holds⟩) fun s₅ grounded₅ grow₅ holds => ?_
    have wired := wireCall_meets grounded₅ site.call declared
      ((grow₁.trans (grow₁₄.trans grow₅)).trail? trail)
      (((grow₃.trans grow₄).trans grow₅).trail? trail') calls
    refine wired.bind fun _ s₆ grounded₆ grow₆ wired => .pure grounded₆ ?_
    refine ⟨⟨?_, answer s₆ (grow₆.holds holds)⟩, wired, Or.inl (by simp)⟩
    intro x' same
    rw [← Option.some.inj same]
    exact ⟨_, (grow₅.trans grow₆).activation? read⟩

/-- The object of an allocation is sent to the assigned variable. -/
theorem allocate_meets (grounded : s.Grounded q) {m : CsMethod} {t : Trail} {position : Nat}
    {lhs : VarId} {ty : Ty} (stands : P.program.stmt? m.method position = some (.new lhs ty))
    (reached : P.Derives q (.reachable ⟨t, m.method⟩)) (trail : s.trail? m.context = some t) :
    Meets q s (allocate m position lhs ty) settled fun _ s' =>
      s'.Sends (.var t lhs) ⟨q.heapTrail t, ⟨m.method, position⟩⟩ := by
  have wf := lawful.program
  obtain ⟨method, declared, -⟩ := Program.stmt?_eq_some_iff.1 stands
  have allocates : P.program.allocation? ⟨m.method, position⟩ = some ⟨ty, method.owner⟩ :=
    Program.allocation?_eq_some_iff.2 ⟨method, lhs, declared, stands, rfl⟩
  have held : P.Derives q (.pointsTo (.var t lhs) ⟨q.heapTrail t, ⟨m.method, position⟩⟩) :=
    .one (.new stands) reached
  refine (objectOf_meets lawful grounded allocates reached).bind fun obj s₁ grounded₁ grow₁ made => ?_
  obtain ⟨found, site⟩ := made
  refine (heapContext_meets lawful grounded₁ obj (grow₁.trail? trail) reached stands).bind
    fun heap s₂ grounded₂ grow₂ trail' => ?_
  have found₂ := getElem?_of_prefix grow₂.heap found
  refine (csObj_meets grounded₂ trail' found₂ ⟨_, site ▸ held⟩).bind
    fun x s₃ grounded₃ grow₃ object => ?_
  have grow₁₃ := (grow₁.trans grow₂).trans grow₃
  have read : s₃.location? (.var m.context lhs) = some (.var t lhs) :=
    Option.map_eq_some_iff.2 ⟨t, grow₁₃.trail? trail, rfl⟩
  exact deliver_meets grounded₃ read (site ▸ object) held

section Body

variable {m : CsMethod} {t : Trail} (reached : P.Derives q (.reachable ⟨t, m.method⟩))
include reached

/-- One statement gets what it asks for. -/
theorem seedStmt_meets (grounded : s.Grounded q) {position : Nat} {stmt : Stmt}
    (stands : P.program.stmt? m.method position = some stmt) (trail : s.trail? m.context = some t) :
    Meets q s (seedStmt m position stmt) Option.toList fun called s' =>
      (∀ x ∈ called, s'.Known x) ∧ s'.Executed q t m.method position stmt := by
  have wf := lawful.program
  have onVar : ∀ w, s.location? (.var m.context w) = some (.var t w) :=
    fun w => Option.map_eq_some_iff.2 ⟨t, trail, rfl⟩
  -- a flow leaves nothing to be visited
  have flows : ∀ {k k' : PointerKey} {l l' : Location},
      (Meets q s (flow k k') settled fun _ s' => s'.FlowsTo l l') →
      (∀ s' : SolverState P, s'.FlowsTo l l' → s'.Executed q t m.method position stmt) →
      Meets q s (do flow k k'; return none) Option.toList fun called s' =>
        (∀ x ∈ called, s'.Known x) ∧ s'.Executed q t m.method position stmt := by
    intro k k' l l' meets executed
    exact meets.bind fun _ s₁ grounded₁ _ flows => .pure grounded₁ ⟨by simp, executed s₁ flows⟩
  unfold seedStmt
  split
  · rename_i lhs ty
    refine (allocate_meets lawful grounded stands reached trail).bind fun _ s₁ grounded₁ _ sends => ?_
    exact .pure grounded₁ ⟨by simp, sends⟩
  · rename_i lhs rhs
    exact flows (flow_meets grounded (onVar rhs) (onVar lhs) (.copy reached stands)) fun _ => id
  · rename_i lhs f
    have source : s.location? (.staticField f) = some (.staticField f) := rfl
    exact flows (flow_meets grounded source (onVar lhs) (.loadStatic reached stands)) fun _ => id
  · rename_i f rhs
    have target : s.location? (.staticField f) = some (.staticField f) := rfl
    exact flows (flow_meets grounded (onVar rhs) target (.storeStatic reached stands)) fun _ => id
  · rename_i i
    obtain ⟨call, described, -⟩ := (wf.stmts _ position _ stands).called i rfl
    have site : CallIn P.hierarchy m.method i call := ⟨⟨position, stands⟩, described⟩
    refine Meets.lookup (fetch_eq_ok_iff.2 described) ?_
    split
    · rename_i kind
      refine (callStatic_meets lawful grounded site kind reached trail).imp
        fun called s' _ _ result => ⟨result.1, ?_⟩
      intro call' callee described' _ resolved
      rw [described] at described'
      obtain rfl := Option.some.inj described'
      exact result.2 callee resolved
    · rename_i other
      refine .pure grounded ⟨by simp, ?_⟩
      intro call' callee described' kind
      rw [described] at described'
      obtain rfl := Option.some.inj described'
      exact absurd kind other
  · rename_i statement h₁ h₂ h₃ h₄ h₅
    refine .pure grounded ⟨by simp, ?_⟩
    unfold SolverState.Executed
    split
    · exact absurd rfl (h₁ _ _)
    · exact absurd rfl (h₂ _ _)
    · exact absurd rfl (h₃ _ _)
    · exact absurd rfl (h₄ _ _)
    · exact absurd rfl (h₅ _)
    · trivial

/-- The statements of a body from a position on get what they ask for. -/
theorem seedBody_meets (stmts : List Stmt) {s : SolverState P} (grounded : s.Grounded q)
    {position : Nat} {callees : List CsMethodId} (trail : s.trail? m.context = some t)
    (stand : ∀ j stmt, stmts[j]? = some stmt →
      P.program.stmt? m.method (position + j) = some stmt)
    (known : ∀ x ∈ callees, s.Known x) :
    Meets q s (seedBody m position callees stmts) id fun callees' s' =>
      (∀ x ∈ callees', s'.Known x) ∧ (∀ x ∈ callees, x ∈ callees') ∧
      ∀ j stmt, stmts[j]? = some stmt → s'.Executed q t m.method (position + j) stmt := by
  induction stmts generalizing s position callees with
  | nil => exact .pure grounded ⟨known, fun _ => id, by simp⟩
  | cons stmt stmts ih =>
    have first := seedStmt_meets lawful reached grounded (stand 0 stmt rfl) trail
    refine first.bind_debt fun called s₁ grounded₁ progress ⟨known₁, executed⟩ => ?_
    have known' : ∀ x ∈ called.toList ++ callees, s₁.Known x := by
      intro x mem
      rcases List.mem_append.1 mem with new | old
      · exact known₁ x (Option.mem_toList.1 new)
      · exact progress.toGrows.known (known x old)
    have rest := ih grounded₁ (progress.toGrows.trail? trail) (Program.stmt?_of_tail stand) known'
    refine rest.imp fun callees' s₂ _ grow₂ ⟨known₂, kept, done⟩ => ?_
    refine ⟨⟨known₂, fun x mem => kept x (List.mem_append_right _ mem), ?_⟩,
      fun x mem => Or.inl (kept x (List.mem_append_left _ mem))⟩
    intro j stmt' listed
    cases j with
    | zero =>
      rw [← Option.some.inj listed]
      exact grow₂.executed executed
    | succ j =>
      have executed' := done j stmt' listed
      rw [Nat.add_assoc, Nat.add_comm 1 j] at executed'
      exact executed'

theorem seedMethod_meets (grounded : s.Grounded q) {method : Method}
    (declared : P.program.methods[m.method.index]? = some method)
    (trail : s.trail? m.context = some t) :
    Meets q s (seedMethod m) id fun callees s' =>
      (∀ x ∈ callees, s'.Known x) ∧ s'.Handled q (.reachable ⟨t, m.method⟩) := by
  refine Meets.lookup (fetch_eq_ok_iff.2 declared) ?_
  have stand : ∀ j stmt, method.body.toList[j]? = some stmt →
      P.program.stmt? m.method (0 + j) = some stmt := by
    intro j stmt listed
    rw [Nat.zero_add]
    rw [Array.getElem?_toList] at listed
    exact Program.stmt?_eq_some_iff.2 ⟨method, declared, listed⟩
  refine (seedBody_meets lawful reached method.body.toList grounded trail stand (by simp)).imp
    fun callees s' _ _ ⟨known, _, done⟩ => ⟨known, fun i stmt stands => ?_⟩
  obtain ⟨method', declared', listed⟩ := Program.stmt?_eq_some_iff.1 stands
  rw [declared] at declared'
  obtain rfl := Option.some.inj declared'
  have executed := done i stmt (by rw [Array.getElem?_toList]; exact listed)
  rw [Nat.zero_add] at executed
  exact executed

end Body

end Solve

end PointsTo
