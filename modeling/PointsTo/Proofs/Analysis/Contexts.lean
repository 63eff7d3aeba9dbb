import PointsTo.Proofs.Analysis.Solution
import PointsTo.Proofs.Solver.Spelling

/-!
# Context discipline of analyses

Whatever calls an analysis has had, its contexts are no longer than the strategy allows and of its own
elements. The heap context of an object is the end of a context of the allocating method, and the
context of a called method is what the strategy makes of the call and of a receiver object that the
receiver variable has. Method contexts and heap contexts may have different lengths, and a static call
may pass on the context of its caller, so all of this is kept together.
-/

namespace PointsTo

open Relation (ReflTransGen)

variable {P : Problem} {q : Policy}

/-! ## States reached by justified changes -/

theorem Solve.Meets.comesBack {α : Type} {s s' : SolverState P} {x : Solve P α}
    {debt : α → List CsMethodId} {post : α → SolverState P → Prop} (meets : Meets q s x debt post)
    (leads : Leads x s s') : x.ComesBack s s' := by
  rcases leads with ⟨a, run⟩ | ⟨e, run⟩
  · exact Or.inl ⟨a, run⟩
  · obtain ⟨-, -, excused⟩ := meets.error run
    cases e with
    | failed e => exact Or.inr (Or.inl ⟨e, run⟩)
    | outOfRange r => exact False.elim excused
    | outOfRounds => exact Or.inr (Or.inr run)

namespace SolverState

variable {s : SolverState P}

/-- Calls that start and step make no call on an object that the receiver variable does not have. -/
theorem Reached.begun (lawful : P.Lawful q) (reached : s.Reached) :
    ReflTransGen (Begun False) (SolverState.initial P) s := by
  induction reached with
  | initial => exact .refl
  | @start s s' before leads ih =>
    have meets := Solve.start_meets lawful (before.grounded lawful)
    exact ih.trans (Solve.start_begun s' (meets.comesBack leads))
  | @step s s' before leads ih =>
    have meets := Solve.step_meets lawful (before.grounded lawful) (before.indexed lawful)
    exact ih.trans (Solve.step_justified.begun s' (meets.comesBack leads))
  | @solve s s' before leads ih =>
    have meets := Solve.solve_meets lawful lawful.program.fits (before.grounded lawful)
      (before.indexed lawful)
    exact ih.trans (Solve.solve_begun s' (meets.comesBack leads))

/-! ## Discipline -/

section Discipline

variable (q : Policy) (s : SolverState P)

/-- The callee of a call without a receiver has the context that the policy makes of the call. -/
def FollowsCall (e : CallEdge .csCallSite .csMethod) : Prop :=
  ∃ site callee caller, s.elements.csCallSiteAt e.site = .ok site ∧
    s.elements.csMethodAt e.callee = .ok callee ∧ s.contexts.elements site.context = .ok caller ∧
    s.contexts.elements callee.context = .ok (q.onCall (.callSite site.invoke) caller)

/-- The callee of a call on an object has the context that the policy makes of the call and of an
object that the receiver variable has. -/
def FollowsReceiver (e : CallEdge .csCallSite .csMethod) : Prop :=
  ∃ site callee caller, s.elements.csCallSiteAt e.site = .ok site ∧
    s.elements.csMethodAt e.callee = .ok callee ∧ s.contexts.elements site.context = .ok caller ∧
    ∃ call v p recv x obj heap, P.program.invokeAt site.invoke = .ok call ∧ call.receiver = some v ∧
      s.elements.pointerKey p = .ok (.var site.context v) ∧ s.Contains p recv ∧
      s.elements.csObjAt recv = .ok x ∧ P.heapModel.objectAt s.heap x.obj = .ok obj ∧
      s.contexts.elements x.context = .ok heap ∧
      s.contexts.elements callee.context = .ok (q.onReceiver (.callSite site.invoke)
        (.object x.obj) (.type obj.containerClass) caller heap)

/-- The heap context of an object is not too long, and it is the end of a context under which the
allocating method can run. -/
def FollowsAllocation (x : CsObj) : Prop :=
  ∃ obj heap m y allocator, P.heapModel.objectAt s.heap x.obj = .ok obj ∧
    s.contexts.elements x.context = .ok heap ∧ heap.length ≤ q.heapDepth ∧
    m ∈ s.callGraph.reachable.toList ∧ s.elements.csMethodAt m = .ok y ∧
    y.method = obj.containerMethod ∧ s.contexts.elements y.context = .ok allocator ∧
    heap <:+ allocator

/-- Contexts are of the length and the elements of the strategy, and come from where the policy takes
them. -/
structure Disciplined : Prop where
  contexts : ∀ c ctx, s.contexts.elements c = .ok ctx →
    ctx.length ≤ q.strategy.depth ∧ ∀ e ∈ ctx, q.strategy.Owns e ∧ s.Names e
  /-- Without contexts, only the empty one is ever made. -/
  insensitive : q.strategy = .insensitive → s.contexts.size = 1
  /-- The class of an object is the one that declares the allocating method. -/
  owners : ∀ o obj, P.heapModel.objectAt s.heap o = .ok obj →
    ∃ method, P.program.methodAt obj.containerMethod = .ok method ∧ method.owner = obj.containerClass
  allocations : ∀ o x, s.elements.csObjAt o = .ok x → s.FollowsAllocation q x
  static : ∀ e ∈ s.callGraph.edges.toList, e.kind = .static → s.FollowsCall q e
  onObject : ∀ e ∈ s.callGraph.edges.toList, e.kind ≠ .static → s.FollowsReceiver q e

end Discipline

/-! ## Reading what is spelled -/

/-- A call in the record of a variable has the variable as its receiver. -/
theorem receiver_of_used (wf : P.program.WellFormed) {v : VarId} {var : Var} {i : InvokeId}
    {call : Invoke} (declared : P.program.varAt v = .ok var) (used : i ∈ var.uses.invokes)
    (described : P.program.invokeAt i = .ok call) : call.receiver = some v := by
  obtain ⟨k, stmt, -, -, call', described', receiver⟩ :=
    (wf.uses v var (fetch_eq_ok_iff.1 declared) (.invoke i)).1 used
  rw [Program.invokeAt, fetch_eq_ok_iff, described'] at described
  rwa [← Option.some.inj described]

theorem elements_of_trail? {c : ContextId} {t : Inclusion.Trail} (read : s.trail? c = some t) :
    ∃ ctx, s.contexts.elements c = .ok ctx := by
  obtain ⟨ctx, known, -⟩ := trail?_eq_some_iff.1 read
  exact ⟨ctx, fetch_eq_ok_iff.2 known⟩

/-- A call comes from a site with a context. -/
theorem Grounded.exists_caller (grounded : s.Grounded q) {j : CsCallSiteId} {c : ContextId}
    {i : InvokeId} (site : s.elements.callSites.get? j.index = some ⟨c, i⟩) :
    ∃ caller, s.contexts.elements c = .ok caller := by
  obtain ⟨⟨t, trail⟩, -⟩ := grounded.callSites _ (Table.mem_toList_of_get? site)
  exact elements_of_trail? trail

section Grounded

variable (lawful : P.Lawful q) (grounded : s.Grounded q)
include lawful grounded

theorem Placed.followsAllocation {x : CsObj} (placed : s.Placed q x) : s.FollowsAllocation q x := by
  obtain ⟨y, obj, ⟨m, reachable, known⟩, found, allocates, cuts⟩ := placed
  obtain ⟨t, trail, -⟩ := grounded.methods y (Table.mem_toList_of_get? known)
  obtain ⟨allocator, read⟩ := elements_of_trail? trail
  have cut := cuts s.contexts List.prefix_rfl allocator (fetch_eq_ok_iff.1 read)
  refine ⟨obj, q.onAlloc allocator, m, y, allocator, ?_, fetch_eq_ok_iff.2 cut,
    q.length_onAlloc_le_heapDepth allocator, reachable, fetch_eq_ok_iff.2 known, allocates.symm, read,
    q.onAlloc_suffix allocator⟩
  rw [lawful.heap.objectAt]
  exact fetch_eq_ok_iff.2 found

theorem Spelled.follows {e : CallEdge .csCallSite .csMethod} (spelled : s.Spelled q e) :
    (e.kind = .static → s.FollowsCall q e) ∧ (e.kind ≠ .static → s.FollowsReceiver q e) := by
  cases spelled with
  | static site described kind target cuts =>
    refine ⟨fun _ => ?_, fun other => absurd rfl other⟩
    obtain ⟨caller, read⟩ := grounded.exists_caller site
    have cut := cuts s.contexts List.prefix_rfl caller (fetch_eq_ok_iff.1 read)
    exact ⟨_, _, caller, fetch_eq_ok_iff.2 site, fetch_eq_ok_iff.2 target, read,
      fetch_eq_ok_iff.2 cut⟩
  | @onObject j m c c' i call callee recv x obj v var site described kind target declared used receives
      object found reads =>
    refine ⟨fun same => absurd same kind, fun _ => ?_⟩
    obtain ⟨caller, read⟩ := grounded.exists_caller site
    obtain ⟨t, -, trail, -⟩ := grounded.csObjects x (Table.mem_toList_of_get? object)
    obtain ⟨heap, heaps⟩ := elements_of_trail? trail
    obtain ⟨p, key, here⟩ := receives
    have cut := reads s.contexts List.prefix_rfl caller heap (fetch_eq_ok_iff.1 read)
      (fetch_eq_ok_iff.1 heaps)
    refine ⟨_, _, caller, fetch_eq_ok_iff.2 site, fetch_eq_ok_iff.2 target, read, call, v, p, recv, x,
      obj, heap, described, receiver_of_used lawful.program declared used described,
      fetch_eq_ok_iff.2 key, here, fetch_eq_ok_iff.2 object, ?_, heaps, fetch_eq_ok_iff.2 cut⟩
    rw [lawful.heap.objectAt]
    exact fetch_eq_ok_iff.2 found

end Grounded

/-- A table of empty contexts has one. -/
theorem size_eq_one_of_forall_nil {t : ContextTable} (nil : ∀ ctx ∈ t.table.toList, ctx = []) :
    t.size = 1 := by
  have inside : 0 < t.size := Table.lt_size_of_get? t.first
  by_contra other
  have second : 1 < t.table.size := by
    rw [ContextTable.size] at inside other
    omega
  obtain ⟨ctx, known⟩ := Table.exists_get?_of_lt_size second
  rw [nil ctx (Table.mem_toList_of_get? known)] at known
  exact absurd (Table.get?_injective known t.first) (by decide)

theorem Reached.disciplined (lawful : P.Lawful q) (answers : P.selector.Answers q)
    (reached : s.Reached) : s.Disciplined q := by
  have grounded := reached.grounded lawful
  have spells := spells_of_begun answers lawful.heap (spells_initial q) (reached.begun lawful)
  constructor
  case contexts =>
    intro c ctx read
    have listed := Table.mem_toList_of_get? (fetch_eq_ok_iff.1 read)
    obtain ⟨short, names, -⟩ := grounded.contexts ctx listed
    exact ⟨short, fun e mem => ⟨spells.owns ctx listed e mem, names e mem⟩⟩
  case insensitive =>
    intro strategy
    refine size_eq_one_of_forall_nil fun ctx listed => ?_
    obtain ⟨short, -⟩ := grounded.contexts ctx listed
    rw [strategy] at short
    exact List.length_eq_zero_iff.1 (Nat.le_zero.1 short)
  case owners =>
    intro o obj found
    rw [lawful.heap.objectAt] at found
    have allocates := (lawful.heap.allocated spells.heap (fetch_eq_ok_iff.1 found)).2
    obtain ⟨method, declared, owner⟩ := Heap.method_of_allocation? allocates
    exact ⟨method, fetch_eq_ok_iff.2 declared, owner⟩
  case allocations =>
    intro o x known
    have listed := Table.mem_toList_of_get? (fetch_eq_ok_iff.1 known)
    exact (spells.objects x listed).followsAllocation lawful grounded
  case static => exact fun e listed => ((spells.edges e listed).follows lawful grounded).1
  case onObject => exact fun e listed => ((spells.edges e listed).follows lawful grounded).2

end SolverState

/-! ## Analyses of built programs -/

/-- A main method calls a method on a new object, and that method calls itself on a new object. -/
def selfGrowing : Program :=
  (Program.ofDeclarations? [
    .addClass "A" none false,
    .addMethod ⟨0⟩ ⟨"void main()"⟩ true [],
    .addMethod ⟨0⟩ ⟨"void grow()"⟩ false [],
    .addEntry ⟨0⟩,
    .var ⟨0⟩ "a",
    .var ⟨1⟩ "b",
    .addStmt ⟨0⟩ (.new ⟨1⟩ (.ref ⟨0⟩)),
    .addInvoke ⟨0⟩ .virtual ⟨⟨0⟩, ⟨"void grow()"⟩⟩ (some ⟨1⟩) [] none,
    .addStmt ⟨1⟩ (.new ⟨2⟩ (.ref ⟨0⟩)),
    .addInvoke ⟨1⟩ .virtual ⟨⟨0⟩, ⟨"void grow()"⟩⟩ (some ⟨2⟩) [] none]).getD .empty

theorem built_selfGrowing : selfGrowing.Built :=
  Program.built_of_ofDeclarations? (by decide +kernel)

namespace Config

variable {p : Program}

/-- Whatever the program, the configuration and the calls: contexts keep to the strategy. -/
theorem disciplined_of_reached (c : Config) (built : p.Built) :
    ∃ h, Hierarchy.ofProgram p = .ok h ∧ h.program = p ∧
      ∀ s : SolverState (c.problem .bySite h), s.Reached → s.Disciplined c.policy := by
  obtain ⟨h, hierarchy, same⟩ := Hierarchy.exists_ofProgram built.wellFormed.toChecked
  have lawful := (c.problem_regular built hierarchy).toLawful
  exact ⟨h, hierarchy, same, fun s reached =>
    reached.disciplined lawful (Selector.ofStrategy_answers c.strategy c.heapDepth)⟩

/-- With contexts of two objects and heap contexts of one, the example has five contexts. -/
theorem disciplined_of_reached_selfGrowing : selfGrowing.Built ∧
    ∃ h, ∃ s : SolverState (Preset.thorough.config.problem .bySite h),
      Hierarchy.ofProgram selfGrowing = .ok h ∧ s.Reached ∧
      s.Disciplined Preset.thorough.config.policy ∧ s.contexts.size = 5 ∧
      s.contexts.elements ⟨4⟩ = .ok [.object ⟨1⟩, .object ⟨1⟩] := by
  obtain ⟨h, hierarchy, -, disciplined⟩ :=
    disciplined_of_reached Preset.thorough.config built_selfGrowing
  have runs : selfGrowing.passes (fun h =>
      Solve.passes Solve.solve (.initial (Preset.thorough.config.problem .bySite h)) fun s =>
        decide (s.contexts.size = 5) &&
          (match s.contexts.elements ⟨4⟩ with
            | .ok ctx => decide (ctx = [.object ⟨1⟩, .object ⟨1⟩])
            | .error _ => false)) = true := by
    decide +kernel
  obtain ⟨⟨⟩, s, run, found⟩ := Solve.exists_of_passes (Program.test_of_passes hierarchy runs)
  obtain ⟨size, found⟩ := Bool.and_eq_true_iff.1 found
  have reached : s.Reached := .solve .initial (Or.inl ⟨(), run⟩)
  refine ⟨built_selfGrowing, h, s, hierarchy, reached, disciplined s reached,
    of_decide_eq_true size, ?_⟩
  split at found
  · rename_i ctx read
    rw [read, of_decide_eq_true found]
  · cases found

end Config

end PointsTo
