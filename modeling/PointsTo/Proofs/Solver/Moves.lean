import PointsTo.Proofs.Solver.Cost

/-!
# Operations move by changes

Each operation carries out changes only, and is given with the number of propagations that it does
not pay for itself. Nothing is said about an operation that stops at a reference out of range. A
loop that runs out of rounds has earned or processed as much as its rounds allow.
-/

namespace PointsTo

variable {P : Problem}

namespace Solve

section Rules

variable {α β : Type} {bound : Nat} {spent : SolverState P → Prop} {m n : Nat} {s s' : SolverState P}

/-- From a state, an operation carries out changes that it pays for, but for `n` propagations. If it
runs out of rounds, the rounds are spent. -/
structure MovesFrom (bound : Nat) (spent : SolverState P → Prop) (s : SolverState P) (n : Nat)
    (x : Solve P α) : Prop where
  ok {a : α} {s' : SolverState P} : x s = .ok a s' → s.Moved bound n s'
  failed {e : AnalysisError} {s' : SolverState P} :
    x s = .error (.failed e) s' → s.Moved bound n s'
  outOfRounds {s' : SolverState P} : x s = .error .outOfRounds s' → s.Moved bound n s' ∧ spent s'

/-- From every state, an operation carries out changes that it pays for, but for `n` propagations. -/
def Moves (bound : Nat) (spent : SolverState P → Prop) (n : Nat) (x : Solve P α) : Prop :=
  ∀ s, MovesFrom bound spent s n x

/-- An operation that succeeds from a state. -/
theorem MovesFrom.of_ok {x : Solve P α} {a : α} (run : x s = .ok a s')
    (moved : s.Moved bound n s') : MovesFrom bound spent s n x := by
  constructor
  · intro a' s'' run'
    rw [run] at run'
    cases run'
    exact moved
  · intro e s'' run'
    rw [run] at run'
    cases run'
  · intro s'' run'
    rw [run] at run'
    cases run'

/-- An operation that stops at a reference out of range. -/
theorem MovesFrom.of_outOfRange {x : Solve P α} {r : OutOfRange}
    (run : x s = .error (.outOfRange r) s') : MovesFrom bound spent s n x := by
  constructor
  · intro a s'' run'
    rw [run] at run'
    cases run'
  · intro e s'' run'
    rw [run] at run'
    cases run'
  · intro s'' run'
    rw [run] at run'
    cases run'

theorem MovesFrom.of_failed {x : Solve P α} {e : AnalysisError}
    (run : x s = .error (.failed e) s') (moved : s.Moved bound n s') :
    MovesFrom bound spent s n x := by
  constructor
  · intro a s'' run'
    rw [run] at run'
    cases run'
  · intro e' s'' run'
    rw [run] at run'
    cases run'
    exact moved
  · intro s'' run'
    rw [run] at run'
    cases run'

theorem MovesFrom.bind {x : Solve P α} {f : α → Solve P β} (first : MovesFrom bound spent s m x)
    (rest : ∀ a s', x s = .ok a s' → MovesFrom bound spent s' n (f a)) :
    MovesFrom bound spent s (m + n) (x >>= f) := by
  cases run : x s with
  | ok a s' =>
    have moved := first.ok run
    have run' : (x >>= f) s = f a s' := by rw [bind_run, run]
    constructor
    · intro b s'' done
      exact moved.trans ((rest a s' run).ok (run' ▸ done))
    · intro e s'' done
      exact moved.trans ((rest a s' run).failed (run' ▸ done))
    · intro s'' done
      obtain ⟨later, holds⟩ := (rest a s' run).outOfRounds (run' ▸ done)
      exact ⟨moved.trans later, holds⟩
  | error e s' =>
    have run' : (x >>= f) s = .error e s' := by rw [bind_run, run]
    constructor
    · intro b s'' done
      rw [run'] at done
      cases done
    · intro e' s'' done
      rw [run'] at done
      cases done
      exact (first.failed run).mono (Nat.le_add_right m n)
    · intro s'' done
      rw [run'] at done
      cases done
      obtain ⟨moved, holds⟩ := first.outOfRounds run
      exact ⟨moved.mono (Nat.le_add_right m n), holds⟩

theorem MovesFrom.mono {x : Solve P α} (moves : MovesFrom bound spent s m x) (le : m ≤ n) :
    MovesFrom bound spent s n x where
  ok run := (moves.ok run).mono le
  failed run := (moves.failed run).mono le
  outOfRounds run := ⟨(moves.outOfRounds run).1.mono le, (moves.outOfRounds run).2⟩

theorem Moves.mono {x : Solve P α} (moves : Moves bound spent m x) (le : m ≤ n) :
    Moves bound spent n x :=
  fun s => (moves s).mono le

theorem Moves.bind {x : Solve P α} {f : α → Solve P β} (first : Moves bound spent m x)
    (rest : ∀ a, Moves bound spent n (f a)) : Moves bound spent (m + n) (x >>= f) :=
  fun s => (first s).bind fun a s' _ => rest a s'

/-- An operation after one that pays for everything. -/
theorem Moves.then {x : Solve P α} {f : α → Solve P β} (first : Moves bound spent 0 x)
    (rest : ∀ a, Moves bound spent n (f a)) : Moves bound spent n (x >>= f) := by
  have both := first.bind rest
  rw [Nat.zero_add] at both
  exact both

theorem Moves.pure (a : α) : Moves bound spent n (Pure.pure a : Solve P α) :=
  fun s => .of_ok rfl (.mono (.refl s) (Nat.zero_le n))

theorem Moves.throw (e : AnalysisError) :
    Moves bound spent n (MonadExcept.throw (Stop.failed e) : Solve P α) :=
  fun s => .of_failed rfl (.mono (.refl s) (Nat.zero_le n))

theorem Moves.get : Moves bound spent n (MonadState.get : Solve P (SolverState P)) :=
  fun s => .of_ok rfl (.mono (.refl s) (Nat.zero_le n))

theorem Moves.lookup (x : Except OutOfRange α) : Moves bound spent n (liftM x : Solve P α) := by
  intro s
  cases x with
  | ok a => exact .of_ok rfl (.mono (.refl s) (Nat.zero_le n))
  | error r => exact .of_outOfRange rfl

/-- An operation on what a look-up finds. -/
theorem Moves.lookup_then {x : Except OutOfRange α} {f : α → Solve P β}
    (rest : ∀ a, x = .ok a → Moves bound spent n (f a)) :
    Moves bound spent n (liftM x >>= f : Solve P β) := by
  intro s
  have moves := (Moves.lookup (n := 0) x s).bind fun a s' run =>
    rest a (lookup_run_eq_ok run).1 s'
  rw [Nat.zero_add] at moves
  exact moves

/-- Operations on the members of a list, each of which leaves `n` propagations to pay for. -/
theorem Moves.forM {f : α → Solve P Unit} {l : List α} (each : ∀ a ∈ l, Moves bound spent n (f a)) :
    Moves bound spent (l.length * n) (l.forM f) := by
  induction l with
  | nil => exact .pure ()
  | cons a l ih =>
    rw [List.length_cons, Nat.succ_mul, Nat.add_comm]
    refine (each a (by simp)).bind fun _ => ih fun b hb => each b (by simp [hb])

theorem Moves.forM_zero {f : α → Solve P Unit} {l : List α} (each : ∀ a, Moves bound spent 0 (f a)) :
    Moves bound spent 0 (l.forM f) :=
  (Moves.forM fun a _ => each a).mono (by simp)

theorem Moves.mapM {f : α → Solve P β} {l : List α} (each : ∀ a, Moves bound spent 0 (f a)) :
    Moves bound spent 0 (l.mapM f) := by
  induction l with
  | nil => exact .pure []
  | cons a l ih =>
    rw [List.mapM_cons]
    exact (each a).then fun b => ih.then fun bs => .pure (b :: bs)

end Rules

/-! ## Elements, graphs and counters -/

section Operations

variable {bound : Nat} {spent : SolverState P → Prop} {n : Nat}

theorem pointer_moves (k : PointerKey) : Moves bound spent n (pointer k : Solve P _) :=
  fun s => .of_ok (pointer_run s k) (.quiet (.pointer s k) rfl rfl)

theorem csObj_moves (c : ContextId) (o : ObjId) : Moves bound spent n (csObj c o : Solve P _) :=
  fun s => .of_ok (csObj_run s c o) (.quiet (.csObj s ⟨c, o⟩) rfl rfl)

theorem csMethod_moves (c : ContextId) (m : MethodId) :
    Moves bound spent n (csMethod c m : Solve P _) :=
  fun s => .of_ok (csMethod_run s c m) (.quiet (.csMethod s ⟨c, m⟩) rfl rfl)

theorem csCallSite_moves (c : ContextId) (i : InvokeId) :
    Moves bound spent n (csCallSite c i : Solve P _) :=
  fun s => .of_ok (csCallSite_run s c i) (.quiet (.csCallSite s ⟨c, i⟩) rfl rfl)

theorem select_moves (choose : ContextTable → Selection) :
    Moves bound spent n (select choose : Solve P _) := by
  intro s
  have run := select_run s choose
  cases found : choose s.contexts with
  | ok selected =>
    obtain ⟨c, t⟩ := selected
    rw [found] at run
    exact .of_ok run (.quiet (.contexts s t) rfl rfl)
  | error r =>
    rw [found] at run
    exact .of_outOfRange run

theorem objectOf_moves (site : AllocSite) (ty : Ty) :
    Moves bound spent n (objectOf site ty : Solve P _) := by
  intro s
  have run := objectOf_run s site ty
  cases made : P.heapModel.objectOf P.program site ty s.heap with
  | error r =>
    rw [made] at run
    exact .of_outOfRange run
  | ok entry =>
    obtain ⟨o, h⟩ := entry
    cases found : P.heapModel.objectAt h o with
    | error r =>
      simp only [made, found] at run
      exact .of_outOfRange run
    | ok obj =>
      simp only [made, found] at run
      exact .of_ok run (.quiet (.heap s h) rfl rfl)

theorem schedule_moves (p : PointerId) (objects : ObjectSet) :
    Moves bound spent 1 (schedule p objects : Solve P _) :=
  fun s => .of_ok (schedule_run s p objects) (.schedule ⟨p, objects⟩)

theorem addCallEdge_moves (e : CallEdge .csCallSite .csMethod) :
    Moves bound spent n (addCallEdge e : Solve P _) := by
  intro s
  refine .of_ok (addCallEdge_run s e) (.quiet (.callEdge s e) rfl ?_)
  simp only [SolverState.credit, CallGraph.reachable_addEdge]

theorem countUnresolved_moves : Moves bound spent n (countUnresolved : Solve P _) :=
  fun s => .of_ok (countUnresolved_run s) (.quiet (.unresolved s) rfl rfl)

theorem addFlow_moves (source target : PointerId) :
    Moves bound spent 0 (addFlow source target : Solve P _) := by
  intro s
  have run := addFlow_run s source target
  cases known : s.flow.hasEdge ⟨source, target⟩ with
  | true =>
    rw [if_pos known] at run
    exact .of_ok run (.refl s)
  | false =>
    rw [if_neg (by simp [known])] at run
    cases found : s.elements.pointsToSet source with
    | error r =>
      rw [found] at run
      exact .of_outOfRange run
    | ok objects =>
      rw [found] at run
      exact .of_ok run (.flow known found)

theorem flow_moves (source target : PointerKey) :
    Moves bound spent 0 (flow source target : Solve P _) :=
  (pointer_moves source).then fun _ => (pointer_moves target).then fun _ =>
    (addFlow_moves _ _).then fun _ => .pure ()

/-! ## Objects that are new to a variable, and calls -/

theorem processAccesses_moves (c : ContextId) (v : VarId) (o : CsObjId) :
    Moves bound spent 0 (processAccesses c v o : Solve P _) := by
  refine (Moves.lookup _).then fun var => ?_
  refine (Moves.forM_zero fun _ => flow_moves _ _).then fun _ => ?_
  refine (Moves.forM_zero fun _ => flow_moves _ _).then fun _ => ?_
  refine (Moves.forM_zero fun _ => flow_moves _ _).then fun _ => ?_
  exact .forM_zero fun _ => flow_moves _ _

theorem checkArity_moves (call : Invoke) (callee : MethodId) :
    Moves bound spent n (checkArity call callee : Solve P _) := by
  refine (Moves.lookup _).then fun method => ?_
  dsimp only
  split
  · exact (Moves.lookup _).then fun _ => (Moves.lookup _).then fun _ => .throw _
  · exact .pure ()

theorem wireCall_moves (caller : ContextId) (call : Invoke) (calleeContext : ContextId)
    (callee : MethodId) :
    Moves bound spent 0 (wireCall caller call calleeContext callee : Solve P _) := by
  refine (Moves.lookup _).then fun method => ?_
  refine (Moves.forM_zero fun _ => flow_moves _ _).then fun _ => ?_
  cases call.result with
  | none => exact .pure ()
  | some result =>
    refine (pointer_moves _).then fun target => .forM_zero fun v => ?_
    exact (pointer_moves _).then fun _ => (addFlow_moves _ _).then fun _ => .pure ()

theorem callStatic_moves (c : ContextId) (i : InvokeId) (call : Invoke) :
    Moves bound spent 0 (callStatic c i call : Solve P _) := by
  refine (Moves.lookup _).then fun target => ?_
  cases target with
  | none => exact countUnresolved_moves.then fun _ => .pure none
  | some callee =>
    refine (csCallSite_moves c i).then fun site => (select_moves _).then fun calleeContext => ?_
    refine (checkArity_moves call callee).then fun _ => (csMethod_moves _ _).then fun m => ?_
    refine (addCallEdge_moves _).then fun isNew => ?_
    cases isNew with
    | false => exact .pure none
    | true => exact (wireCall_moves c call calleeContext callee).then fun _ => .pure (some m)

theorem allocate_moves (m : CsMethod) (position : Nat) (lhs : VarId) (ty : Ty) :
    Moves bound spent 1 (allocate m position lhs ty : Solve P _) :=
  (objectOf_moves _ _).then fun _ => (select_moves _).then fun _ => (csObj_moves _ _).then fun _ =>
    (pointer_moves _).then fun _ => schedule_moves _ _

theorem seedStmt_moves (m : CsMethod) (position : Nat) (stmt : Stmt) :
    Moves bound spent 1 (seedStmt m position stmt : Solve P _) := by
  have flows : ∀ source target, Moves bound spent 1
      (do flow source target; return none : Solve P (Option CsMethodId)) :=
    fun source target => (flow_moves source target).then fun _ => .pure none
  unfold seedStmt
  split
  · exact (allocate_moves m position _ _).bind fun _ => .pure (n := 0) none
  · exact flows _ _
  · exact flows _ _
  · exact flows _ _
  · refine (Moves.lookup _).then fun call => ?_
    split
    · exact (callStatic_moves _ _ _).mono (by omega)
    · exact .pure none
  · exact .pure none

theorem seedBody_moves (m : CsMethod) (stmts : List Stmt) (position : Nat)
    (callees : List CsMethodId) :
    Moves bound spent stmts.length (seedBody m position callees stmts : Solve P _) := by
  induction stmts generalizing position callees with
  | nil => exact .pure callees
  | cons stmt stmts ih =>
    rw [List.length_cons, Nat.add_comm]
    exact (seedStmt_moves m position stmt).bind fun callee => ih (position + 1) _

end Operations

/-! ## Reachable methods -/

end Solve

/-- No body has more statements, and no variable more calls, than a bound. -/
structure Program.Fits (p : Program) (bound : Nat) : Prop where
  bodies {m : MethodId} {method : Method} : p.methodAt m = .ok method → method.body.size ≤ bound
  calls {v : VarId} {var : Var} : p.varAt v = .ok var → var.uses.invokes.length ≤ bound

/-- A loop has had all its rounds. -/
def SolverState.Spent (bound : Nat) (s : SolverState P) : Prop :=
  P.limit ≤ bound * s.callGraph.reachable.size ∨ P.limit ≤ s.stats.iterations

namespace Solve

section Visits

variable {α : Type} {bound n : Nat} {s s' : SolverState P} {spent spent' : SolverState P → Prop}

theorem MovesFrom.imp {x : Solve P α} (moves : MovesFrom bound spent s n x)
    (weaker : ∀ s', spent s' → spent' s') : MovesFrom bound spent' s n x where
  ok := moves.ok
  failed := moves.failed
  outOfRounds run := ⟨(moves.outOfRounds run).1, weaker _ (moves.outOfRounds run).2⟩

variable (fits : P.program.Fits bound)
include fits

theorem seedMethod_moves (method : CsMethod) :
    Moves bound spent bound (seedMethod method : Solve P _) := by
  refine Moves.lookup_then fun decl found => ?_
  refine (seedBody_moves method decl.body.toList 0 []).mono ?_
  rw [Array.length_toList]
  exact fits.bodies found

/-- The credit for a new reachable method pays for the allocations of its body. -/
theorem seedNew_moves (m : CsMethodId) (method : CsMethod) (sites : List CsCallSiteId) :
    Moves bound spent 0 (seedNew m method sites : Solve P _) := by
  intro s
  have run := seedNew_run s m method sites
  cases known : s.callGraph.isReachable m with
  | true =>
    rw [if_pos known] at run
    exact .of_ok run (.refl s)
  | false =>
    rw [if_neg (by simp [known])] at run
    have change : Change s { s with callGraph := (s.callGraph.addReachable m sites).2 } :=
      .reachable sites known
    have credit := SolverState.credit_addReachable bound sites known
    have paid : ∀ s', SolverState.Moved bound bound
        { s with callGraph := (s.callGraph.addReachable m sites).2 } s' → s.Moved bound 0 s' := by
      intro s' moved
      refine ⟨(Relation.ReflTransGen.single change).trans moved.changes, fun indexed => ?_⟩
      have cost := moved.cost indexed
      have load : SolverState.load { s with callGraph := (s.callGraph.addReachable m sites).2 } =
          s.load := rfl
      rw [load, credit] at cost
      omega
    have moves : MovesFrom bound spent { s with callGraph := (s.callGraph.addReachable m sites).2 }
        bound (seedMethod method) := seedMethod_moves fits method _
    constructor
    · intro callees s' done
      exact paid s' (moves.ok (run ▸ done))
    · intro e s' done
      exact paid s' (moves.failed (run ▸ done))
    · intro s' done
      obtain ⟨moved, holds⟩ := moves.outOfRounds (run ▸ done)
      exact ⟨paid s' moved, holds⟩

theorem visit_moves (m : CsMethodId) : Moves bound spent 0 (visit m : Solve P _) := by
  rw [visit_eq]
  refine Moves.get.then fun _ => (Moves.lookup _).then fun method => ?_
  refine (Moves.lookup _).then fun invokes => ?_
  refine (Moves.mapM fun _ => csCallSite_moves _ _).then fun sites => ?_
  exact seedNew_moves fits m method sites

end Visits
end Solve

end PointsTo
