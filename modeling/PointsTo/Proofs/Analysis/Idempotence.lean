import PointsTo.Proofs.Analysis.Accrual

/-!
# Operations that have nothing left to do

Making a method reachable asks for its call sites first and only then looks whether it is reachable
already. In any state that operations lead to, also after failures, the call sites of a reachable
method are known, so nothing comes of asking again. A run that succeeds leaves nothing pending and has
recorded all sizes, so a start, a step or a run after it changes nothing.
-/

namespace PointsTo

open Relation (ReflTransGen)

variable {P : Problem}

namespace SolverState

variable {hand : Prop} {s s' : SolverState P}

/-! ## Call sites of reachable methods -/

/-- The call sites of all reachable methods are known. -/
def Sited (s : SolverState P) : Prop :=
  ∀ m ∈ s.callGraph.reachable.toList, s.KnowsSites m

theorem sited_initial : (initial P).Sited :=
  fun _ listed => absurd listed List.not_mem_nil

theorem Kept.knowsSites (kept : s.Kept s') {m : CsMethodId} (knows : s.KnowsSites m) :
    s'.KnowsSites m := by
  obtain ⟨y, invokes, known, listed, sites⟩ := knows
  exact ⟨y, invokes, Table.get?_of_prefix kept.methods known, listed,
    fun i mem => kept.callSites.subset (sites i mem)⟩

/-- A method that a step makes reachable has its call sites known before. -/
theorem Justified.knowsSites (step : Justified hand s s') {m : CsMethodId}
    (listed : m ∈ s'.callGraph.reachable.toList) :
    m ∈ s.callGraph.reachable.toList ∨ s.KnowsSites m := by
  cases step with
  | quiet _ _ _ _ _ _ same =>
    rw [same] at listed
    exact Or.inl listed
  | reach sites new known =>
    rcases CallGraph.mem_reachable_addReachable.1 listed with old | rfl
    · exact Or.inl old
    · exact Or.inr known
  | select | place => exact Or.inl listed
  | call =>
    rw [CallGraph.reachable_addEdge] at listed
    exact Or.inl listed

theorem Begun.sited (sited : s.Sited) (begun : Begun hand s s') : s'.Sited := by
  intro m listed
  have kept := kept_of_changes begun.changes
  cases begun with
  | entry => exact kept.knowsSites (sited m listed)
  | justified step =>
    rcases step.knowsSites listed with old | known
    · exact kept.knowsSites (sited m old)
    · exact kept.knowsSites known

theorem sited_of_begun (sited : s.Sited) (steps : ReflTransGen (Begun hand) s s') : s'.Sited := by
  induction steps with
  | refl => exact sited
  | tail _ step ih => exact step.sited ih

/-! ## After a run -/

/-- The entries have been made reachable, nothing is pending, and the sizes are recorded. -/
structure Idle (s : SolverState P) : Prop where
  initialized : s.initialized = true
  pending : s.worklist.toList = []
  recorded : s.recorded = s

end SolverState

namespace Solve

variable {s s' : SolverState P}

/-! ## Methods that are reachable already -/

theorem csCallSite_of_mem {c : ContextId} {i : InvokeId}
    (known : ⟨c, i⟩ ∈ s.elements.callSites.toList) : ∃ j, csCallSite c i s = .ok j s := by
  obtain ⟨j, found⟩ := Table.mem_toList_iff.1 known
  have same : (s.elements.csCallSite ⟨c, i⟩).2 = s.elements := by
    rw [ElementStore.csCallSite, Table.intern_of_find?_eq_some found]
  refine ⟨⟨(s.elements.callSites.intern ⟨c, i⟩).1⟩, ?_⟩
  rw [csCallSite_run, same]

theorem mapM_csCallSite_of_mem {c : ContextId} {invokes : List InvokeId}
    (known : ∀ i ∈ invokes, ⟨c, i⟩ ∈ s.elements.callSites.toList) :
    ∃ sites, (invokes.mapM (csCallSite c) : Solve P _) s = .ok sites s := by
  induction invokes with
  | nil => exact ⟨[], rfl⟩
  | cons i invokes ih =>
    obtain ⟨first, rest⟩ := List.forall_mem_cons.1 known
    obtain ⟨j, asked⟩ := csCallSite_of_mem first
    obtain ⟨sites, asked'⟩ := ih rest
    refine ⟨j :: sites, ?_⟩
    simp only [List.mapM_cons, bind_run, asked, asked', pure_run]

theorem visit_of_reachable {m : CsMethodId} (reachable : m ∈ s.callGraph.reachable.toList)
    (knows : s.KnowsSites m) : visit m s = .ok [] s := by
  obtain ⟨y, invokes, known, listed, sites⟩ := knows
  obtain ⟨js, asked⟩ := mapM_csCallSite_of_mem sites
  have found : s.elements.csMethodAt m = .ok y := fetch_eq_ok_iff.2 known
  simp only [visit_eq, bind_run, get_run, lookup_run, found, listed, asked, seedNew_run]
  exact if_pos (CallGraph.isReachable_iff.2 reachable)

theorem visitAll_nil (rounds : Nat) : visitAll rounds [] s = .ok () s := by
  cases rounds <;> rfl

/-- A method that is reachable already is not made reachable again. -/
theorem addReachable_of_reachable (rounds : 0 < P.limit) {m : CsMethodId}
    (reachable : m ∈ s.callGraph.reachable.toList) (knows : s.KnowsSites m) :
    addReachable m s = .ok () s := by
  obtain ⟨n, limit⟩ := Nat.exists_eq_succ_of_ne_zero (Nat.pos_iff_ne_zero.1 rounds)
  rw [addReachable, limit, visitAll, bind_run, visit_of_reachable reachable knows]
  exact visitAll_nil n

/-! ## Operations after a run -/

/-- A step that has something pending says that there may be more. -/
theorem react_again {p : PointerId} {delta : ObjectSet} :
    Ensures s (react p delta) fun again _ => again = true := by
  unfold react
  split
  · exact .pure rfl
  · refine .get (.lookup fun key _ => ?_)
    have each {l : List CsObjId} {c : ContextId} {v : VarId} :
        Ensures s (l.forM (processObject c v)) fun _ _ => True := fun _ _ _ => trivial
    split
    · exact each.bind fun _ _ _ => .pure rfl
    · exact .pure rfl

theorem step_pending : Ensures s step fun again s' => again = false → s'.worklist.toList = [] := by
  have run := step_run s
  cases head : s.worklist.poll with
  | none =>
    rw [head] at run
    exact .of_ok run fun _ => Worklist.poll_eq_none_iff.1 head
  | some entry =>
    cases found : s.elements.pointsToSet entry.1.target with
    | error r =>
      simp only [head, found] at run
      exact .of_error run
    | ok known =>
      simp only [head, found] at run
      refine .of_run run (react_again.imp ?_)
      rintro again s' rfl again
      cases again

theorem stepAll_pending {rounds : Nat} :
    Ensures s (stepAll rounds) fun _ s' => s'.worklist.toList = [] := by
  induction rounds generalizing s with
  | zero => exact .throw
  | succ rounds ih =>
    refine step_pending.bind fun again s₁ pending => ?_
    cases again with
    | false => exact .pure (pending rfl)
    | true => exact ih

theorem solve_idle : Ensures s solve fun _ s' => s'.Idle := by
  intro a s' run
  obtain ⟨bound, fits⟩ := P.program.exists_fits
  have started := solve_initialized fits a s' run
  obtain ⟨_, s₁, -, rest⟩ := bind_run_eq_ok run
  obtain ⟨_, s₂, stepped, recorded⟩ := bind_run_eq_ok rest
  have pending := stepAll_pending _ s₂ stepped
  rw [recordSizes_run] at recorded
  cases recorded
  exact ⟨started, pending, rfl⟩

theorem start_of_initialized (started : s.initialized = true) : start s = .ok () s := by
  simp [start, bind_run, get_run, pure_run, started]

theorem solve_of_idle (rounds : 0 < P.limit) (idle : s.Idle) : solve s = .ok () s := by
  obtain ⟨n, limit⟩ := Nat.exists_eq_succ_of_ne_zero (Nat.pos_iff_ne_zero.1 rounds)
  have stepped : stepAll (n + 1) s = .ok () s := by
    rw [stepAll, bind_run, step_of_empty idle.pending]
    rfl
  rw [solve, bind_run, start_of_initialized idle.initialized, limit]
  simp only [bind_run, stepped, recordSizes_run, idle.recorded]

end Solve

/-! ## Analyses of built programs -/

namespace Config

variable {p : Program}

theorem limit_problem_pos (c : Config) (model : HeapModel) (h : Hierarchy) :
    0 < (c.problem model h).limit :=
  Nat.lt_of_lt_of_le (by decide : 0 < wordLimit) (Nat.le_add_right _ _)

/-- Whatever operations are called on an analysis, also if they fail: making a method reachable that is
reachable already changes nothing, and a start, a step or a run after a run that has succeeded changes
nothing. -/
theorem idempotent_of_afterAll (c : Config) (built : p.Built) :
    ∃ h, Hierarchy.ofProgram p = .ok h ∧ h.program = p ∧
      ∀ (l : List Operation) (s : SolverState (c.problem .bySite h)),
        (SolverState.initial _).afterAll l = some s →
          (∀ m ∈ s.callGraph.reachable.toList, Solve.addReachable m s = .ok () s) ∧
          ∀ s', Solve.solve s = .ok () s' → Solve.start s' = .ok () s' ∧
            Solve.step s' = .ok false s' ∧ Solve.solve s' = .ok () s' := by
  obtain ⟨h, hierarchy, same⟩ := Hierarchy.exists_ofProgram built.wellFormed.toChecked
  have rounds := c.limit_problem_pos .bySite h
  refine ⟨h, hierarchy, same, fun l s came => ⟨fun m reachable => ?_, fun s' run => ?_⟩⟩
  · have sited := SolverState.sited_of_begun SolverState.sited_initial
      (SolverState.begun_of_afterAll came)
    exact Solve.addReachable_of_reachable rounds reachable (sited m reachable)
  · have idle := Solve.solve_idle () s' run
    exact ⟨Solve.start_of_initialized idle.initialized, Solve.step_of_empty idle.pending,
      Solve.solve_of_idle rounds idle⟩

/-- The first run of the example fails after its main method has become reachable, the second
succeeds. -/
theorem idempotent_of_afterAll_halfSeeded : halfSeeded.Built ∧
    ∃ h, ∃ s s' : SolverState (Config.default.problem .bySite h),
      Hierarchy.ofProgram halfSeeded = .ok h ∧ (SolverState.initial _).afterAll [.solve] = some s ∧
      ⟨0⟩ ∈ s.callGraph.reachable.toList ∧ Solve.addReachable ⟨0⟩ s = .ok () s ∧
      Solve.solve s = .ok () s' ∧ Solve.step s' = .ok false s' ∧ Solve.solve s' = .ok () s' := by
  obtain ⟨h, hierarchy, -, idempotent⟩ := idempotent_of_afterAll Config.default built_halfSeeded
  have runs : halfSeeded.passes (fun h =>
      match (SolverState.initial (Config.default.problem .bySite h)).afterAll [.solve] with
      | none => false
      | some s => s.callGraph.isReachable ⟨0⟩ && Solve.passes Solve.solve s fun _ => true) = true := by
    decide +kernel
  have runs := Program.test_of_passes hierarchy runs
  split at runs
  · cases runs
  · rename_i s came
    obtain ⟨known, passed⟩ := Bool.and_eq_true_iff.1 runs
    have reachable := CallGraph.isReachable_iff.1 known
    obtain ⟨⟨⟩, s', run, -⟩ := Solve.exists_of_passes passed
    obtain ⟨again, done⟩ := idempotent [.solve] s came
    obtain ⟨-, stepped, solved⟩ := done s' run
    exact ⟨built_halfSeeded, h, s, s', hierarchy, came, reachable, again ⟨0⟩ reachable, run, stepped,
      solved⟩

end Config

end PointsTo
