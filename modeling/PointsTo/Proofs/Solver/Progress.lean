import PointsTo.Proofs.Solver.Grounded

/-!
# Progress of an analysis

A fact is handled when everything that the inclusion rules ask for because of it has been sent, is
connected by a flow edge, or is in the call graph. An operation makes progress when every fact that
it adds has been handled by its end; it may leave behind called methods that are not reachable yet.
`Meets` says this of an operation that succeeds, and of one that stops, that the reason is a call
that cannot be made.
-/

namespace PointsTo

open Inclusion

variable {P : Problem}

/-- A call has as many arguments as a method has parameters. -/
def Program.Fitting (p : Program) (call : Invoke) (callee : MethodId) : Prop :=
  ∀ method, p.methods[callee.index]? = some method → call.args.length = method.params.length

theorem Program.fitting_iff {p : Program} {call : Invoke} {callee : MethodId} {method : Method}
    (declared : p.methods[callee.index]? = some method) :
    p.Fitting call callee ↔ call.args.length = method.params.length := by
  simp only [Program.Fitting, declared, Option.some.injEq, forall_eq']

namespace SolverState

/-! ## Handled facts -/

section Handled

variable (q : Policy) (s : SolverState P)

/-- What a statement asks for when its method becomes reachable. -/
def Executed (t : Trail) (m : MethodId) (i : Nat) : Stmt → Prop
  | .new lhs _ => s.Sends (.var t lhs) ⟨q.heapTrail t, ⟨m, i⟩⟩
  | .copy lhs rhs => s.FlowsTo (.var t rhs) (.var t lhs)
  | .loadField lhs (.global f) => s.FlowsTo (.staticField f) (.var t lhs)
  | .storeField (.global f) rhs => s.FlowsTo (.var t rhs) (.staticField f)
  | .invoke i => ∀ call callee, P.program.invokes[i.index]? = some call → call.kind = .static →
      P.hierarchy.resolveStatic call.target = .ok (some callee) →
      P.program.Fitting call callee ∧ s.Holds (.calls .static ⟨t, i⟩ ⟨q.callTrail t i, callee⟩)
  | _ => True

/-- What a use of a variable asks for when an object is new to the variable. -/
def Served (t : Trail) (o : HeapObj) : Use → Prop
  | .storeField f rhs => s.FlowsTo (.var t rhs) (.instanceField o f)
  | .loadField f lhs => s.FlowsTo (.instanceField o f) (.var t lhs)
  | .storeArray rhs => s.FlowsTo (.var t rhs) (.arrayIndex o)
  | .loadArray lhs => s.FlowsTo (.arrayIndex o) (.var t lhs)
  | .invoke i => ∀ call a callee, P.program.invokes[i.index]? = some call →
      Dispatches P.hierarchy call o a callee →
      P.program.Fitting call callee ∧
      s.Holds (.calls call.kind ⟨t, i⟩ ⟨q.receiverTrail t i o a, callee⟩) ∧
      ∀ method, P.program.methods[callee.index]? = some method →
        ∃ self, method.receiver = some self ∧ s.Sends (.var (q.receiverTrail t i o a) self) o

/-- What a call asks for: arguments flow to parameters and returned variables to the result, which is
a place even if nothing is returned. -/
structure Wired (site : CallPoint) (a : Activation) : Prop where
  arguments {call : Invoke} {method : Method} : P.program.invokes[site.invoke.index]? = some call →
    P.program.methods[a.method.index]? = some method →
    ∀ entry ∈ call.args.zip method.params, s.FlowsTo (.var site.trail entry.1) (.var a.trail entry.2)
  target {call : Invoke} {target : VarId} : P.program.invokes[site.invoke.index]? = some call →
    call.result = some target → ∃ p, s.locationAt? p = some (.var site.trail target)
  results {call : Invoke} {method : Method} {target : VarId} :
    P.program.invokes[site.invoke.index]? = some call →
    P.program.methods[a.method.index]? = some method → call.result = some target →
    ∀ v ∈ method.returned, s.FlowsTo (.var a.trail v) (.var site.trail target)

/-- All that a fact asks for has been done. -/
def Handled : Fact → Prop
  | .reachable a => ∀ i stmt, P.program.stmt? a.method i = some stmt →
      s.Executed q a.trail a.method i stmt
  | .pointsTo (.var t v) o => ∀ var, P.program.vars[v.index]? = some var →
      ∀ use, var.uses.Has use → s.Served q t o use
  | .pointsTo _ _ => True
  | .calls _ site a => s.Wired site a

end Handled

variable {q : Policy} {s s' s'' : SolverState P}

section Grows

variable (grow : s.Grows s')
include grow

theorem Grows.executed {t : Trail} {m : MethodId} {i : Nat} {stmt : Stmt}
    (done : s.Executed q t m i stmt) : s'.Executed q t m i stmt := by
  unfold Executed at done ⊢
  split at done
  · exact grow.sends done
  · exact grow.flowsTo done
  · exact grow.flowsTo done
  · exact grow.flowsTo done
  · intro call callee described kind target
    obtain ⟨fitting, holds⟩ := done call callee described kind target
    exact ⟨fitting, grow.holds holds⟩
  · trivial

theorem Grows.served {t : Trail} {o : HeapObj} {use : Use} (done : s.Served q t o use) :
    s'.Served q t o use := by
  cases use with
  | storeField f rhs => exact grow.flowsTo done
  | loadField f lhs => exact grow.flowsTo done
  | storeArray rhs => exact grow.flowsTo done
  | loadArray lhs => exact grow.flowsTo done
  | invoke i =>
    intro call a callee described target
    obtain ⟨fitting, holds, receiver⟩ := done call a callee described target
    refine ⟨fitting, grow.holds holds, fun method declared => ?_⟩
    obtain ⟨self, bound, sends⟩ := receiver method declared
    exact ⟨self, bound, grow.sends sends⟩

theorem Grows.wired {site : CallPoint} {a : Activation} (done : s.Wired site a) :
    s'.Wired site a where
  arguments described declared entry listed :=
    grow.flowsTo (done.arguments described declared entry listed)
  target described assigned := (done.target described assigned).imp fun _ => grow.locationAt?
  results described declared assigned v returned :=
    grow.flowsTo (done.results described declared assigned v returned)

theorem Grows.handled {f : Fact} (done : s.Handled q f) : s'.Handled q f := by
  cases f with
  | reachable a => exact fun i stmt stands => grow.executed (done i stmt stands)
  | pointsTo l o =>
    cases l with
    | var t v => exact fun var declared use has => grow.served (done var declared use has)
    | _ => trivial
  | calls kind site a => exact grow.wired done

end Grows

/-! ## Progress -/

/-- Every fact that a state adds is handled, and every method that it adds a call of is reachable or
among some methods that are left to be visited. -/
structure Progress (q : Policy) (debt : List CsMethodId) (s s' : SolverState P) : Prop
    extends s.Grows s' where
  handled {f : Fact} : s'.Holds f → s.Holds f ∨ s'.Handled q f
  answered {kind : CallKind} {site : CallPoint} {a : Activation} : s'.Holds (.calls kind site a) →
    s.Holds (.calls kind site a) ∨ s'.Holds (.reachable a) ∨
      ∃ m ∈ debt, s'.activation? m = some a

theorem Progress.refl (debt : List CsMethodId) (s : SolverState P) : Progress q debt s s :=
  ⟨.refl s, Or.inl, Or.inl⟩

/-- Methods that an operation leaves to be visited may be visited by the next one. -/
theorem Progress.trans {debt debt' : List CsMethodId} (first : Progress q debt s s')
    (second : Progress q debt' s' s'')
    (paid : ∀ m ∈ debt, m ∈ debt' ∨ m ∈ s''.callGraph.reachable.toList) :
    Progress q debt' s s'' where
  toGrows := first.toGrows.trans second.toGrows
  handled holds := by
    rcases second.handled holds with middle | done
    · exact (first.handled middle).imp_right second.toGrows.handled
    · exact Or.inr done
  answered holds := by
    rcases second.answered holds with middle | done
    · rcases first.answered middle with old | runs | ⟨m, owed, read⟩
      · exact Or.inl old
      · exact Or.inr (Or.inl (second.toGrows.holds runs))
      · have read' := second.toGrows.activation? read
        rcases paid m owed with left | visited
        · exact Or.inr (Or.inr ⟨m, left, read'⟩)
        · exact Or.inr (Or.inl ⟨m, visited, read'⟩)
    · exact Or.inr done

/-- An operation that changes neither the call graph nor the contents of points-to sets adds no
facts. -/
theorem Grounded.progress {debt : List CsMethodId} (grounded : s.Grounded q) (grow : s.Grows s')
    (callGraph : s'.callGraph = s.callGraph)
    (contains : ∀ {p x}, s'.Contains p x → s.Contains p x) : Progress q debt s s' := by
  have same : ∀ {f : Fact}, s'.Holds f → s.Holds f := by
    refine grounded.holds_of_same grow ?_ ?_ contains
    · rw [callGraph]
      exact fun _ => id
    · rw [callGraph]
      exact fun _ => id
  exact ⟨grow, fun holds => Or.inl (same holds), fun holds => Or.inl (same holds)⟩

end SolverState

/-! ## Operations -/

/-- Why an operation may stop: there is nothing to start from, or a call cannot be made. Running out
of rounds is left open here. -/
def Problem.Excuses (P : Problem) (q : Policy) : Stop → Prop
  | .failed .noEntryMethod => P.program.entries = []
  | .failed (.missingReceiver method) => LacksReceiver P.hierarchy q method
  | .failed (.arityMismatch _ _ _ _) => BadCall P.hierarchy q
  | .outOfRange _ => False
  | .outOfRounds => True

namespace Solve

variable {α β : Type} {q : Policy} {s s' : SolverState P}

/-- An operation succeeds with a grounded state, with progress and with a result of some kind, or it
stops in a grounded state for a reason. -/
def Meets (q : Policy) (s : SolverState P) (x : Solve P α) (debt : α → List CsMethodId)
    (post : α → SolverState P → Prop) : Prop :=
  match x s with
  | .ok a s' => s'.Grounded q ∧ s.Progress q (debt a) s' ∧ post a s'
  | .error e s' => s'.Grounded q ∧ s.Grows s' ∧ P.Excuses q e

/-- Nothing is left to be visited. -/
abbrev settled (_ : α) : List CsMethodId := []

variable {x : Solve P α} {f : α → Solve P β} {debt : α → List CsMethodId}
  {debt' : β → List CsMethodId} {post : α → SolverState P → Prop} {post' : β → SolverState P → Prop}

theorem Meets.of_ok {a : α} (run : x s = .ok a s') (grounded : s'.Grounded q)
    (progress : s.Progress q (debt a) s') (result : post a s') : Meets q s x debt post := by
  rw [Meets, run]
  exact ⟨grounded, progress, result⟩

theorem Meets.of_error {e : Stop} (run : x s = .error e s') (grounded : s'.Grounded q)
    (grow : s.Grows s') (excused : P.Excuses q e) : Meets q s x debt post := by
  rw [Meets, run]
  exact ⟨grounded, grow, excused⟩

theorem Meets.ok (meets : Meets q s x debt post) {a : α} (run : x s = .ok a s') :
    s'.Grounded q ∧ s.Progress q (debt a) s' ∧ post a s' := by
  rw [Meets, run] at meets
  exact meets

theorem Meets.error (meets : Meets q s x debt post) {e : Stop} (run : x s = .error e s') :
    s'.Grounded q ∧ s.Grows s' ∧ P.Excuses q e := by
  rw [Meets, run] at meets
  exact meets

/-- One operation after another. What the first leaves to be visited, the second visits or leaves in
turn. -/
theorem Meets.bind_debt (first : Meets q s x debt post)
    (rest : ∀ a s', s'.Grounded q → s.Progress q (debt a) s' → post a s' →
      Meets q s' (f a) debt' fun b s'' => post' b s'' ∧
        ∀ m ∈ debt a, m ∈ debt' b ∨ m ∈ s''.callGraph.reachable.toList) :
    Meets q s (x >>= f) debt' post' := by
  unfold Meets
  rw [bind_run]
  cases run : x s with
  | error e s' => exact first.error run
  | ok a s' =>
    obtain ⟨grounded, progress, result⟩ := first.ok run
    have next := rest a s' grounded progress result
    simp only
    cases run' : f a s' with
    | error e s'' =>
      obtain ⟨grounded', grow, excused⟩ := next.error run'
      exact ⟨grounded', progress.toGrows.trans grow, excused⟩
    | ok b s'' =>
      obtain ⟨grounded', progress', result', paid⟩ := next.ok run'
      exact ⟨grounded', progress.trans progress' paid, result'⟩

/-- An operation after one that leaves nothing to be visited. -/
theorem Meets.bind (first : Meets q s x settled post)
    (rest : ∀ a s', s'.Grounded q → s.Grows s' → post a s' → Meets q s' (f a) debt' post') :
    Meets q s (x >>= f) debt' post' := by
  refine first.bind_debt fun a s' grounded progress result => ?_
  have next := rest a s' grounded progress.toGrows result
  unfold Meets at next ⊢
  cases run : f a s' with
  | ok b s'' =>
    rw [run] at next
    exact ⟨next.1, next.2.1, next.2.2, fun m owed => absurd owed List.not_mem_nil⟩
  | error e s'' =>
    rw [run] at next
    exact next

/-- An operation after two that are known together. -/
theorem Meets.bind_pair {g : α → Solve P β} {f : β → Solve P γ} {debt' : γ → List CsMethodId}
    {post : β → SolverState P → Prop} {post' : γ → SolverState P → Prop}
    (first : Meets q s (x >>= g) settled post)
    (rest : ∀ b s', s'.Grounded q → s.Grows s' → post b s' → Meets q s' (f b) debt' post') :
    Meets q s (x >>= fun a => g a >>= f) debt' post' := by
  rw [← bind_assoc]
  exact first.bind rest

/-- An operation that adds no facts. -/
theorem Meets.quiet {a : α} (run : x s = .ok a s') (grounded : s.Grounded q) (grow : s.Grows s')
    (adds : SolverState.Adds q s s') (callGraph : s'.callGraph = s.callGraph)
    (contains : ∀ {p o}, s'.Contains p o → s.Contains p o) (result : post a s') :
    Meets q s x debt post :=
  .of_ok run (grounded.grow grow adds) (grounded.progress grow callGraph contains) result

/-- An operation that adds some facts first and handles them afterwards. -/
theorem Meets.of_added {y : Solve P α} {New : Fact → Prop} (run : x s = y s') (grow : s.Grows s')
    (added : ∀ {f : Fact}, s'.Holds f → s.Holds f ∨ New f)
    (rest : Meets q s' y debt fun a s'' => post a s'' ∧ (∀ f, New f → s''.Handled q f) ∧
      ∀ kind site b, New (.calls kind site b) →
        s''.Holds (.reachable b) ∨ ∃ m ∈ debt a, s''.activation? m = some b) :
    Meets q s x debt post := by
  unfold Meets at rest ⊢
  rw [run]
  cases run' : y s' with
  | error e s'' =>
    rw [run'] at rest
    exact ⟨rest.1, grow.trans rest.2.1, rest.2.2⟩
  | ok a s'' =>
    rw [run'] at rest
    obtain ⟨grounded, progress, result, handled, answered⟩ := rest
    refine ⟨grounded, ⟨grow.trans progress.toGrows, fun holds => ?_, fun holds => ?_⟩, result⟩
    · rcases progress.handled holds with middle | done
      · rcases added middle with old | new
        · exact Or.inl old
        · exact Or.inr (handled _ new)
      · exact Or.inr done
    · rcases progress.answered holds with middle | done
      · rcases added middle with old | new
        · exact Or.inl old
        · exact Or.inr (answered _ _ _ new)
      · exact Or.inr done

theorem Meets.imp {post₂ : α → SolverState P → Prop} (meets : Meets q s x debt post)
    (weaker : ∀ a s', s'.Grounded q → s.Grows s' → post a s' → post₂ a s') :
    Meets q s x debt post₂ := by
  unfold Meets at meets ⊢
  cases run : x s with
  | ok a s' =>
    rw [run] at meets
    exact ⟨meets.1, meets.2.1, weaker a s' meets.1 meets.2.1.toGrows meets.2.2⟩
  | error e s' =>
    rw [run] at meets
    exact meets

theorem Meets.pure {a : α} (grounded : s.Grounded q) (result : post a s) :
    Meets q s (Pure.pure a : Solve P α) debt post :=
  .of_ok rfl grounded (.refl _ s) result

theorem Meets.throw {e : AnalysisError} (grounded : s.Grounded q)
    (excused : P.Excuses q (.failed e)) :
    Meets q s (MonadExcept.throw (Stop.failed e) : Solve P α) debt post :=
  .of_error rfl grounded (.refl s) excused

/-- A look-up that succeeds. -/
theorem Meets.lookup {r : Except OutOfRange α} {a : α} (found : r = .ok a)
    (rest : Meets q s (f a) debt' post') :
    Meets q s (liftM r >>= f : Solve P β) debt' post' := by
  subst found
  exact rest

theorem Meets.get {f : SolverState P → Solve P β} (rest : Meets q s (f s) debt' post') :
    Meets q s (MonadState.get >>= f : Solve P β) debt' post' :=
  rest

/-- An operation on each member of a list, whose results last. -/
theorem Meets.forM {f : α → Solve P Unit} {l : List α} {post : α → SolverState P → Prop}
    (grounded : s.Grounded q)
    (lasts : ∀ a s' s'', SolverState.Grows s' s'' → post a s' → post a s'')
    (each : ∀ a ∈ l, ∀ s', s'.Grounded q → s.Grows s' → Meets q s' (f a) settled fun _ => post a) :
    Meets q s (l.forM f) settled fun _ s' => ∀ a ∈ l, post a s' := by
  induction l generalizing s with
  | nil => exact .pure grounded (by simp)
  | cons a l ih =>
    have first := each a List.mem_cons_self s grounded (.refl s)
    refine first.bind fun _ s' grounded' grow result => ?_
    have rest := ih grounded' fun b hb s'' grounded'' grow' =>
      each b (List.mem_cons_of_mem a hb) s'' grounded'' (grow.trans grow')
    refine rest.imp fun _ s'' _ grow' results => ?_
    exact List.forall_mem_cons.2 ⟨lasts a s' s'' grow' result, results⟩

end Solve

end PointsTo
