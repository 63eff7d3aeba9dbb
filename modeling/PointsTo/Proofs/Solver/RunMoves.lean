import PointsTo.Proofs.Solver.Moves

/-!
# Runs move by changes

The loops of the analysis. A visit pushes no more methods than it earns, so the stack of methods to
visit shrinks but for what is earned, and a step processes one pending propagation.
-/

namespace PointsTo

variable {P : Problem}

namespace Solve

section Runs

variable {bound : Nat} {s s' : SolverState P}

/-! ## The stack of methods to visit -/

theorem length_of_seedBody {m : CsMethod} {stmts : List Stmt} {position : Nat}
    {callees callees' : List CsMethodId}
    (run : (seedBody m position callees stmts : Solve P _) s = .ok callees' s') :
    callees'.length ≤ callees.length + stmts.length := by
  induction stmts generalizing position callees s with
  | nil =>
    cases run
    simp
  | cons stmt stmts ih =>
    obtain ⟨callee, s₁, -, rest⟩ := bind_run_eq_ok run
    have length := ih rest
    have one : callee.toList.length ≤ 1 := by cases callee <;> simp
    simp only [List.length_append, List.length_cons] at length ⊢
    omega

variable (fits : P.program.Fits bound)
include fits

/-- A visit that pushes methods has earned the credit of a reachable method. -/
theorem length_of_seedNew {m : CsMethodId} {method : CsMethod} {sites : List CsCallSiteId}
    {callees : List CsMethodId} (run : (seedNew m method sites : Solve P _) s = .ok callees s') :
    callees.length + bound * s.callGraph.reachable.size ≤
      bound * s'.callGraph.reachable.size := by
  have body := seedNew_run s m method sites
  rw [run] at body
  cases known : s.callGraph.isReachable m with
  | true =>
    rw [if_pos known] at body
    cases body
    simp
  | false =>
    rw [if_neg (by simp [known])] at body
    have seeding : Moves bound (fun _ => False) bound (seedMethod method : Solve P _) :=
      seedMethod_moves fits method
    have moved := (seeding _).ok body.symm
    have grown := Table.size_le_of_prefix (SolverState.kept_of_changes moved.changes).reachable
    rw [CallGraph.size_reachable_addReachable sites known] at grown
    have earned : bound * s.callGraph.reachable.size + bound ≤
        bound * s'.callGraph.reachable.size := Nat.mul_le_mul_left bound grown
    obtain ⟨decl, s₁, lookup, seeded⟩ := bind_run_eq_ok body.symm
    have length := length_of_seedBody seeded
    have fit := fits.bodies (lookup_run_eq_ok lookup).1
    have size : decl.body.toList.length = decl.body.size := Array.length_toList
    rw [List.length_nil] at length
    omega

theorem length_of_visit {m : CsMethodId} {callees : List CsMethodId}
    (run : (visit m : Solve P _) s = .ok callees s') :
    callees.length + bound * s.callGraph.reachable.size ≤
      bound * s'.callGraph.reachable.size := by
  rw [visit_eq] at run
  obtain ⟨s₁, s₂, here, run⟩ := bind_run_eq_ok run
  cases here
  obtain ⟨method, s₃, lookup, run⟩ := bind_run_eq_ok run
  obtain ⟨invokes, s₄, lookup', run⟩ := bind_run_eq_ok run
  obtain ⟨sites, s₅, interned, run⟩ := bind_run_eq_ok run
  rw [(lookup_run_eq_ok lookup').2, (lookup_run_eq_ok lookup).2] at interned
  have interning : Moves bound (fun _ => False) 0
      (invokes.mapM (csCallSite method.context) : Solve P _) :=
    .mapM fun i => csCallSite_moves method.context i
  have moved := (interning s).ok interned
  have grown := Table.size_le_of_prefix (SolverState.kept_of_changes moved.changes).reachable
  have earned := Nat.mul_le_mul_left bound grown
  have visited := length_of_seedNew fits run
  omega

/-- The stack runs out before the rounds do, unless the credit of the rounds has been earned. -/
theorem visitAll_moves (rounds : Nat) (stack : List CsMethodId) (s : SolverState P) :
    MovesFrom bound (fun s' => rounds + bound * s.callGraph.reachable.size <
      stack.length + bound * s'.callGraph.reachable.size) s 0 (visitAll rounds stack) := by
  induction rounds generalizing stack s with
  | zero =>
    cases stack with
    | nil => exact .of_ok rfl (.refl s)
    | cons m rest =>
      have run : (visitAll 0 (m :: rest) : Solve P Unit) s = .error .outOfRounds s := rfl
      refine ⟨fun done => ?_, fun done => ?_, fun done => ?_⟩
      · rw [run] at done
        cases done
      · rw [run] at done
        cases done
      · rw [run] at done
        cases done
        refine ⟨.refl s, ?_⟩
        rw [List.length_cons]
        omega
  | succ rounds ih =>
    cases stack with
    | nil => exact .of_ok rfl (.refl s)
    | cons m rest =>
      have first : MovesFrom bound (fun s' => rounds + 1 + bound * s.callGraph.reachable.size <
          (m :: rest).length + bound * s'.callGraph.reachable.size) s 0 (visit m) :=
        visit_moves fits m s
      refine MovesFrom.mono (first.bind (n := 0) fun callees s' run => ?_) (by omega)
      refine (ih (callees ++ rest) s').imp fun s'' spent => ?_
      have visited := length_of_visit fits run
      simp only [List.length_append, List.length_cons] at spent ⊢
      omega

theorem addReachable_moves (m : CsMethodId) :
    Moves bound (SolverState.Spent bound) 0 (addReachable m : Solve P Unit) := by
  intro s
  refine (visitAll_moves fits P.limit [m] s).imp fun s' spent => Or.inl ?_
  rw [List.length_singleton] at spent
  omega

/-! ## Calls on objects -/

theorem callOn_moves (c : ContextId) (i : InvokeId) (call : Invoke) (recv : CsObjId)
    (recvObj : CsObj) (obj : Obj) (callee : MethodId) :
    Moves bound (SolverState.Spent bound) 1 (callOn c i call recv recvObj obj callee : Solve P _) := by
  refine (select_moves _).then fun calleeContext => (Moves.lookup _).then fun method => ?_
  cases method.receiver with
  | none => exact (Moves.lookup _).then fun name => .throw _
  | some self =>
    refine (checkArity_moves call callee).then fun _ => (pointer_moves _).then fun p => ?_
    refine Moves.bind (n := 0) (schedule_moves p _) fun _ => ?_
    refine (csCallSite_moves c i).then fun site => (csMethod_moves _ _).then fun m => ?_
    refine (addCallEdge_moves _).then fun isNew => ?_
    cases isNew with
    | false => exact .pure ()
    | true => exact (addReachable_moves fits m).then fun _ => wireCall_moves c call _ callee

theorem resolveCall_moves (c : ContextId) (recv : CsObjId) (recvObj : CsObj) (i : InvokeId) :
    Moves bound (SolverState.Spent bound) 1 (resolveCall c recv recvObj i : Solve P _) := by
  refine (Moves.lookup _).then fun call => Moves.get.then fun s => (Moves.lookup _).then fun obj => ?_
  split
  · exact .pure ()
  · refine (Moves.lookup _).then fun target => ?_
    cases target with
    | none => exact countUnresolved_moves
    | some callee => exact callOn_moves fits c i call recv recvObj obj callee

theorem processCall_moves (c : ContextId) (v : VarId) (recv : CsObjId) :
    Moves bound (SolverState.Spent bound) bound (processCall c v recv : Solve P _) := by
  refine Moves.get.then fun s => (Moves.lookup _).then fun recvObj => ?_
  refine Moves.lookup_then fun var found => ?_
  refine (Moves.forM fun i _ => resolveCall_moves fits c recv recvObj i).mono ?_
  rw [Nat.mul_one]
  exact fits.calls found

theorem processObject_moves (c : ContextId) (v : VarId) (o : CsObjId) :
    Moves bound (SolverState.Spent bound) bound (processObject c v o : Solve P _) :=
  (processAccesses_moves c v o).then fun _ => processCall_moves fits c v o

/-! ## Steps and runs -/

theorem react_moves (p : PointerId) (delta : ObjectSet) :
    Moves bound (SolverState.Spent bound) (bound * delta.size) (react p delta : Solve P _) := by
  unfold react
  split
  · exact .pure true
  · refine Moves.get.then fun s => (Moves.lookup _).then fun key => ?_
    split
    · rename_i c v
      refine Moves.bind (n := 0) ?_ fun _ => .pure true
      refine (Moves.forM fun o _ => processObject_moves fits c v o).mono ?_
      exact Nat.le_of_eq (Nat.mul_comm _ _)
    · exact .pure true

/-- The objects that are new to a variable pay for the calls on them. -/
theorem step_moves : Moves bound (SolverState.Spent bound) 0 (step : Solve P Bool) := by
  intro s
  have run := step_run s
  cases head : s.worklist.poll with
  | none =>
    rw [head] at run
    exact .of_ok run (.refl s)
  | some entry =>
    obtain ⟨e, rest⟩ := entry
    cases found : s.elements.pointsToSet e.target with
    | error r =>
      simp only [head, found] at run
      exact .of_outOfRange run
    | ok known =>
      simp only [head, found] at run
      have paid : ∀ s', SolverState.Moved bound (bound * (known.fresh e.objects).size)
          (s.delivered e rest known) s' → s.Moved bound 0 s' := by
        intro s' moved
        have change : Change s (s.delivered e rest known) := .deliver head found
        refine ⟨(Relation.ReflTransGen.single change).trans moved.changes, fun indexed => ?_⟩
        have before := SolverState.cost_delivered bound known head indexed
        have after := moved.cost (SolverState.indexed_of_change change indexed)
        omega
      have moves := react_moves fits e.target (known.fresh e.objects) (s.delivered e rest known)
      constructor
      · intro b s' done
        exact paid s' (moves.ok (run ▸ done))
      · intro e s' done
        exact paid s' (moves.failed (run ▸ done))
      · intro s' done
        obtain ⟨moved, holds⟩ := moves.outOfRounds (run ▸ done)
        exact ⟨paid s' moved, holds⟩

end Runs

end Solve

namespace SolverState

variable {s s' : SolverState P}

theorem iterations_propagated (s : SolverState P) (p : PointerId) (known objects : ObjectSet) :
    (s.propagated p known objects).stats.iterations = s.stats.iterations := by
  unfold propagated
  split <;> rfl

theorem iterations_le_of_change (change : Change s s') :
    s.stats.iterations ≤ s'.stats.iterations := by
  cases change with
  | propagate objects found => exact Nat.le_of_eq (iterations_propagated s _ _ objects).symm
  | @deliver e rest known head found =>
    rw [delivered, iterations_propagated]
    exact Nat.le_succ _
  | _ => exact Nat.le_refl _

theorem iterations_le_of_changes (changes : Changes s s') :
    s.stats.iterations ≤ s'.stats.iterations := by
  induction changes with
  | refl => exact Nat.le_refl _
  | tail _ change ih => exact Nat.le_trans ih (iterations_le_of_change change)

end SolverState

namespace Solve

variable {bound : Nat} {s s' : SolverState P}

theorem recordSizes_moves {n : Nat} {spent : SolverState P → Prop} :
    Moves bound spent n (recordSizes : Solve P Unit) :=
  fun s => .of_ok (recordSizes_run s) (.quiet (.recorded s) rfl rfl)

section Runs

variable (fits : P.program.Fits bound)
include fits

/-- A step that finds a pending propagation counts it. -/
theorem iterations_of_step (run : (step : Solve P Bool) s = .ok true s') :
    s.stats.iterations + 1 ≤ s'.stats.iterations := by
  rw [step_run] at run
  cases head : s.worklist.poll with
  | none =>
    rw [head] at run
    cases run
  | some entry =>
    obtain ⟨e, rest⟩ := entry
    cases found : s.elements.pointsToSet e.target with
    | error r =>
      simp only [head, found] at run
      cases run
    | ok known =>
      simp only [head, found] at run
      have moved := (react_moves fits e.target (known.fresh e.objects) _).ok run
      have later := SolverState.iterations_le_of_changes moved.changes
      rw [SolverState.delivered, SolverState.iterations_propagated] at later
      exact later

/-- The steps run out before the rounds do, unless as many propagations have been processed. -/
theorem stepAll_moves (rounds : Nat) (s : SolverState P) :
    MovesFrom bound (fun s' => s'.Spent bound ∨ rounds + s.stats.iterations ≤ s'.stats.iterations)
      s 0 (stepAll rounds) := by
  induction rounds generalizing s with
  | zero =>
    have run : (stepAll 0 : Solve P Unit) s = .error .outOfRounds s := rfl
    refine ⟨fun done => ?_, fun done => ?_, fun done => ?_⟩
    · rw [run] at done
      cases done
    · rw [run] at done
      cases done
    · rw [run] at done
      cases done
      exact ⟨.refl s, Or.inr (by omega)⟩
  | succ rounds ih =>
    have first : MovesFrom bound (fun s' => s'.Spent bound ∨
        rounds + 1 + s.stats.iterations ≤ s'.stats.iterations) s 0 step :=
      (step_moves fits s).imp fun _ => Or.inl
    refine MovesFrom.mono (first.bind (n := 0) fun again s' run => ?_) (by omega)
    cases again with
    | false => exact Moves.pure () s'
    | true =>
      refine (ih s').imp fun s'' spent => spent.imp_right fun processed => ?_
      have counted := iterations_of_step fits run
      omega

theorem enter_moves (m : MethodId) :
    Moves bound (SolverState.Spent bound) 0 (enter m : Solve P Unit) := by
  refine (csMethod_moves _ m).then fun entry => Moves.then ?_ fun _ => addReachable_moves fits entry
  exact fun s => .of_ok rfl (.quiet (.entry s entry) rfl rfl)

theorem start_moves : Moves bound (SolverState.Spent bound) 0 (start : Solve P Unit) := by
  refine Moves.get.then fun s => ?_
  split
  · exact .pure ()
  · split
    · exact .throw _
    · refine Moves.then (fun s => .of_ok rfl (.quiet (.initialized s) rfl rfl)) fun _ => ?_
      exact .forM_zero fun m => enter_moves fits m

theorem solve_moves : Moves bound (SolverState.Spent bound) 0 (solve : Solve P Unit) := by
  refine (start_moves fits).then fun _ => Moves.then ?_ fun _ => recordSizes_moves
  intro s
  refine (stepAll_moves fits P.limit s).imp fun s' spent => spent.elim id fun processed => ?_
  exact Or.inr (by omega)

end Runs

end Solve

end PointsTo
