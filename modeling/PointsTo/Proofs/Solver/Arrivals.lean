import Mathlib.Algebra.BigOperators.Group.Finset.Basic
import PointsTo.Proofs.Solver.Accounting

/-!
# The counter of calls without a target

After every operation the counter is what the bodies of the reachable methods and the objects in the
sets of variables account for. In the middle of a step it lags behind by the calls on the objects that
have been delivered and not been reacted to.
-/

namespace PointsTo

open Inclusion

variable {P : Problem} {q : Policy}

/-- The calls that are made on a variable. -/
def Problem.callsOn (P : Problem) (v : VarId) : List InvokeId :=
  match P.program.varAt v with
  | .ok var => var.uses.invokes
  | .error _ => []

namespace SolverState

section Counts

variable (s : SolverState P)

/-- The type of an object under a heap context. -/
def typeOf? (x : CsObjId) : Option Ty := do
  let cs ← s.elements.objects.get? x.index
  let obj ← s.objects[cs.obj.index]?
  return obj.ty

/-- The statements of a method under a context. -/
def bodyAt (m : CsMethodId) : List Stmt :=
  match s.elements.methods.get? m.index with
  | some x => P.bodyOf x.method
  | none => []

/-- The calls that are made on a location, which are none unless it is a variable. -/
def callsAt (p : PointerId) : List InvokeId :=
  match s.elements.pointers.get? p.index with
  | some (.var _ v) => P.callsOn v
  | _ => []

/-- A call on objects has no target for an object. -/
def misses (x : CsObjId) (i : InvokeId) : Bool :=
  (s.typeOf? x).any fun ty => P.isMissed ty i

/-- The number of lost calls in the body of a method. -/
def lostAt (m : CsMethodId) : Nat :=
  (s.bodyAt m).countP P.isLost

/-- The number of calls on a location without a target for an object. -/
def missedAt (p : PointerId) (x : CsObjId) : Nat :=
  (s.callsAt p).countP (s.misses x)

/-- The counter of calls without a target lags by some calls behind what reachable methods and objects
that have arrived account for. -/
structure Accounted (arrivals : Finset (PointerId × CsObjId)) (owed : Nat) : Prop where
  contains {p : PointerId} {x : CsObjId} : (p, x) ∈ arrivals ↔ s.Contains p x
  unresolved : s.stats.unresolvedCalls + owed =
    (s.callGraph.reachable.toList.map s.lostAt).sum + ∑ a ∈ arrivals, s.missedAt a.1 a.2

end Counts

variable {s s' : SolverState P}

theorem typeOf?_eq_some_iff {x : CsObjId} {ty : Ty} :
    s.typeOf? x = some ty ↔ ∃ cs obj, s.elements.objects.get? x.index = some cs ∧
      s.objects[cs.obj.index]? = some obj ∧ obj.ty = ty := by
  simp [typeOf?, Option.bind_eq_some_iff]

theorem exists_typeOf? {x : CsObjId} {o : HeapObj} (object : s.heapObj? x = some o) :
    ∃ ty, s.typeOf? x = some ty := by
  obtain ⟨cs, obj, present, found, -⟩ := heapObj?_eq_some_iff.1 object
  exact ⟨obj.ty, typeOf?_eq_some_iff.2 ⟨cs, obj, present, found, rfl⟩⟩

section Grows

variable (grow : s.Grows s')
include grow

theorem Grows.typeOf? {x : CsObjId} {ty : Ty} (typed : s.typeOf? x = some ty) :
    s'.typeOf? x = some ty := by
  obtain ⟨cs, obj, present, found, rfl⟩ := typeOf?_eq_some_iff.1 typed
  exact typeOf?_eq_some_iff.2 ⟨cs, obj, Table.get?_of_prefix grow.csObjects present,
    getElem?_of_prefix grow.heap found, rfl⟩

/-- What an arrived object accounts for stays the same. -/
theorem Grows.missedAt {p : PointerId} {x : CsObjId} (grounded : s.GroundedObject q p x) :
    s'.missedAt p x = s.missedAt p x := by
  obtain ⟨l, o, place, object, -⟩ := grounded
  obtain ⟨k, known, -⟩ := locationAt?_eq_some_iff.1 place
  obtain ⟨ty, typed⟩ := exists_typeOf? object
  have calls : s'.callsAt p = s.callsAt p := by
    rw [callsAt, callsAt, known, Table.get?_of_prefix grow.pointers known]
  have misses : s'.misses x = s.misses x := by
    funext i
    rw [SolverState.misses, SolverState.misses, typed, grow.typeOf? typed]
  rw [SolverState.missedAt, SolverState.missedAt, calls, misses]

/-- What a reachable method accounts for stays the same. -/
theorem Grows.lostAt {m : CsMethodId} (grounded : s.GroundedReachable q m) :
    s'.lostAt m = s.lostAt m := by
  obtain ⟨a, read, -⟩ := grounded
  obtain ⟨c, known, -⟩ := activation?_eq_some_iff.1 read
  rw [SolverState.lostAt, SolverState.lostAt, bodyAt, bodyAt, known,
    Table.get?_of_prefix grow.methods known]

end Grows

/-! ## Operations and deliveries -/

theorem accounted_initial : (initial P).Accounted ∅ 0 where
  contains {p x} := by
    refine iff_of_false (Finset.notMem_empty _) ?_
    rintro ⟨set, found, -⟩
    simp [initial, ElementStore.empty] at found
  unresolved := rfl

/-- Growth does not change what has been accounted for. -/
theorem Accounted.account_of_grows {arrivals : Finset (PointerId × CsObjId)} {n : Nat}
    (accounted : s.Accounted arrivals n) (grounded : s.Grounded q) (grow : s.Grows s') :
    (s.callGraph.reachable.toList.map s'.lostAt).sum + ∑ a ∈ arrivals, s'.missedAt a.1 a.2 =
      s.stats.unresolvedCalls + n := by
  rw [accounted.unresolved]
  congr 1
  · rw [List.map_congr_left fun m listed => grow.lostAt (grounded.reachable m listed)]
  · exact Finset.sum_congr rfl fun a mem =>
      grow.missedAt (grounded.sent a.1 a.2 (Or.inl (accounted.contains.1 mem)))

/-- An operation that counts what was owed. -/
theorem Accounted.tallies {arrivals : Finset (PointerId × CsObjId)} {n : Nat}
    (accounted : s.Accounted arrivals n) (grounded : s.Grounded q) (grow : s.Grows s')
    (tallies : s.Tallies n s') : s'.Accounted arrivals 0 := by
  obtain ⟨visits, tally⟩ := tallies
  refine ⟨accounted.contains.trans ⟨grow.contains, tally.contains⟩, ?_⟩
  have new : (visits.map fun a => P.lostIn a.2.method) = (visits.map Prod.fst).map s'.lostAt := by
    rw [List.map_map]
    refine List.map_congr_left fun a mem => ?_
    rw [Function.comp, SolverState.lostAt, bodyAt, tally.known a mem]
    rfl
  have before := accounted.account_of_grows grounded grow
  rw [tally.unresolved, tally.reachable, List.map_append, List.sum_append_nat, new]
  omega

/-- Objects that arrive at a location together. -/
def arrivalsAt (p : PointerId) (objects : ObjectSet) : Finset (PointerId × CsObjId) :=
  (objects.toList.map fun x => (p, x)).toFinset

theorem mem_arrivalsAt {p p' : PointerId} {x : CsObjId} {objects : ObjectSet} :
    (p', x) ∈ arrivalsAt p objects ↔ p' = p ∧ x ∈ objects := by
  rw [arrivalsAt, List.mem_toFinset, List.mem_map]
  constructor
  · rintro ⟨y, mem, same⟩
    cases same
    exact ⟨rfl, mem⟩
  · rintro ⟨rfl, mem⟩
    exact ⟨x, mem, rfl⟩

theorem sum_arrivalsAt (p : PointerId) (objects : ObjectSet) (count : PointerId → CsObjId → Nat) :
    ∑ a ∈ arrivalsAt p objects, count a.1 a.2 = (objects.toList.map (count p)).sum := by
  have distinct : (objects.toList.map fun x => (p, x)).Nodup :=
    objects.nodup_toList.map fun _ _ same => (Prod.mk.inj same).2
  rw [arrivalsAt, List.sum_toFinset _ distinct, List.map_map]
  rfl

theorem unresolved_propagated (s : SolverState P) (p : PointerId) (known objects : ObjectSet) :
    (s.propagated p known objects).stats.unresolvedCalls = s.stats.unresolvedCalls := by
  unfold propagated
  split <;> rfl

theorem contains_iff_of_found {p : PointerId} {known : ObjectSet} {x : CsObjId}
    (found : s.elements.pointsToSet p = .ok known) : s.Contains p x ↔ x ∈ known := by
  have set := ElementStore.pointsToSet_eq_ok_iff.1 found
  constructor
  · rintro ⟨set', found', mem⟩
    rw [set] at found'
    rwa [Option.some.inj found']
  · exact fun mem => ⟨known, set, mem⟩

/-- A delivery owes the calls on the objects that it brings to a location. -/
theorem Accounted.delivered {arrivals : Finset (PointerId × CsObjId)} {e : Pending}
    {rest : Worklist} {known : ObjectSet} (accounted : s.Accounted arrivals 0)
    (grounded : s.Grounded q) (head : s.worklist.poll = some (e, rest))
    (found : s.elements.pointsToSet e.target = .ok known) :
    (s.delivered e rest known).Accounted
      (arrivals ∪ arrivalsAt e.target (known.fresh e.objects))
      ((known.fresh e.objects).toList.map ((s.delivered e rest known).missedAt e.target)).sum := by
  have found' : (s.taken rest).elements.pointsToSet e.target = .ok known := found
  constructor
  · intro p x
    rw [Finset.mem_union, accounted.contains, mem_arrivalsAt, IdSet.mem_fresh]
    refine Iff.trans ?_ (contains_propagated found').symm
    constructor
    · rintro (old | ⟨here, mem, -⟩)
      · exact Or.inl old
      · exact Or.inr ⟨here, mem⟩
    · rintro (old | ⟨rfl, mem⟩)
      · exact Or.inl old
      · by_cases old : x ∈ known
        · exact Or.inl ((contains_iff_of_found found).2 old)
        · exact Or.inr ⟨rfl, mem, old⟩
  · have separate : Disjoint arrivals (arrivalsAt e.target (known.fresh e.objects)) := by
      rw [Finset.disjoint_left]
      rintro ⟨p, x⟩ old new
      obtain ⟨rfl, fresh⟩ := mem_arrivalsAt.1 new
      exact (IdSet.mem_fresh.1 fresh).2 ((contains_iff_of_found found).1 (accounted.contains.1 old))
    have reachable : (s.delivered e rest known).callGraph = s.callGraph := by
      obtain ⟨elements, worklist, stats, same, -⟩ := delivered_eq s e rest known
      rw [same]
    have count : (s.delivered e rest known).stats.unresolvedCalls = s.stats.unresolvedCalls :=
      unresolved_propagated (s.taken rest) e.target known e.objects
    have before := accounted.account_of_grows grounded (grows_delivered head found)
    rw [Finset.sum_union separate, sum_arrivalsAt, reachable, count, ← Nat.add_assoc, before]
    rfl

end SolverState

namespace Solve

open SolverState (Tallies Accounted)

variable {s : SolverState P}

/-! ## Reactions -/

/-- An operation that counts some calls, on a grounded state. -/
theorem Meets.tallies {α : Type} {x : Solve P α} {debt : α → List CsMethodId}
    {post : α → SolverState P → Prop} {n : Nat} (meets : Meets q s x debt post)
    (tallies : Ensures s x fun _ => s.Tallies n) :
    Ensures s x fun _ s' => s'.Grounded q ∧ s.Grows s' ∧ s.Tallies n s' := by
  intro a s' run
  obtain ⟨grounded, progress, -⟩ := meets.ok run
  exact ⟨grounded, progress.toGrows, tallies a s' run⟩

/-- The operations of a loop count what they count one by one. -/
theorem forM_tallies {α : Type} {f : α → Solve P Unit} {l : List α} {count : α → Nat}
    (grounded : s.Grounded q) (each : ∀ a ∈ l, ∀ s', s'.Grounded q → s.Grows s' →
      Ensures s' (f a) fun _ s'' => s''.Grounded q ∧ s'.Grows s'' ∧ s'.Tallies (count a) s'') :
    Ensures s (l.forM f) fun _ => s.Tallies (l.map count).sum := by
  induction l generalizing s with
  | nil => exact .pure (.refl s)
  | cons a l ih =>
    refine (each a List.mem_cons_self s grounded (.refl s)).bind
      fun _ s₁ ⟨grounded₁, grow₁, tallies₁⟩ => ?_
    refine (ih grounded₁ fun b mem s₂ grounded₂ grow₂ =>
      each b (List.mem_cons_of_mem a mem) s₂ grounded₂ (grow₁.trans grow₂)).imp fun _ s₂ rest => ?_
    rw [List.map_cons, List.sum_cons]
    exact tallies₁.trans rest

theorem sum_map_ite_eq_countP {α : Type} (p : α → Bool) (l : List α) :
    (l.map fun a => if p a then 1 else 0).sum = l.countP p := by
  induction l with
  | nil => rfl
  | cons a l ih => rw [List.map_cons, List.sum_cons, ih, List.countP_cons, Nat.add_comm]

variable (lawful : P.Lawful q)
include lawful

section Objects

variable {c : ContextId} {t : Trail} {v : VarId} {var : Var} {p : PointerId} {x : CsObjId}
  {o : HeapObj} (declared : P.program.vars[v.index]? = some var)
  (reached : P.Derives q (.reachable ⟨t, var.method⟩))
  (held : P.Derives q (.pointsTo (.var t v) o))
include declared reached held

theorem processCall_tallies (grounded : s.Grounded q)
    (known : s.elements.pointers.get? p.index = some (.var c v)) (trail : s.trail? c = some t)
    (object : s.heapObj? x = some o) :
    Ensures s (processCall c v x) fun _ => s.Tallies (s.missedAt p x) := by
  obtain ⟨cs, obj, present, found, -⟩ := SolverState.heapObj?_eq_some_iff.1 object
  have typed : s.typeOf? x = some obj.ty :=
    SolverState.typeOf?_eq_some_iff.2 ⟨cs, obj, present, found, rfl⟩
  have misses : s.misses x = P.isMissed obj.ty := by
    funext i
    rw [SolverState.misses, typed]
    rfl
  have calls : s.callsAt p = var.uses.invokes := by
    rw [SolverState.callsAt, known]
    show P.callsOn v = _
    rw [Problem.callsOn, Program.varAt, fetch_eq_ok_iff.2 declared]
  refine .get (.lookup fun recvObj present' => .lookup fun var' declared' => ?_)
  have same : var' = var := Option.some.inj ((fetch_eq_ok_iff.1 declared').symm.trans declared)
  have same' : recvObj = cs := Option.some.inj ((fetch_eq_ok_iff.1 present').symm.trans present)
  rw [same, same', SolverState.missedAt, misses, calls, ← sum_map_ite_eq_countP]
  refine forM_tallies grounded fun i listed s' grounded' grow => ?_
  refine (resolveCall_meets lawful declared reached held grounded' listed (grow.trail? trail)
    (Table.get?_of_prefix grow.csObjects present) (grow.heapObj? object)).tallies ?_
  -- the object has the same type at the time of each call
  refine resolveCall_tallies fun obj' found' => ?_
  rw [lawful.heap.objectAt] at found'
  have now := getElem?_of_prefix grow.heap found
  exact congrArg Obj.ty (Option.some.inj ((fetch_eq_ok_iff.1 found').symm.trans now))

theorem processObject_tallies (grounded : s.Grounded q)
    (known : s.elements.pointers.get? p.index = some (.var c v)) (trail : s.trail? c = some t)
    (object : s.heapObj? x = some o) :
    Ensures s (processObject c v x) fun _ => s.Tallies (s.missedAt p x) := by
  have quiet : Ensures s (processAccesses c v x) fun _ => SolverState.Quiet (fun _ => True) s :=
    processAccesses_quiet (fun _ => trivial) trivial fun _ _ _ _ => trivial
  refine ((processAccesses_meets lawful declared reached held grounded trail object).tallies
    (quiet.imp fun _ _ quiet => quiet.tallies)).bind fun _ s₁ ⟨grounded₁, grow₁, tallies₁⟩ => ?_
  have arrived : s.GroundedObject q p x := by
    refine ⟨_, o, SolverState.locationAt?_eq_some_iff.2 ⟨_, known, ?_⟩, object, held⟩
    rw [SolverState.location?, trail]
    rfl
  rw [← grow₁.missedAt arrived]
  exact (processCall_tallies lawful declared reached held grounded₁
    (Table.get?_of_prefix grow₁.pointers known) (grow₁.trail? trail)
    (grow₁.heapObj? object)).imp fun _ s₂ tallies₂ => tallies₁.then tallies₂

end Objects

/-- The objects that are new to a location account for what the reaction to them counts. -/
theorem react_tallies (grounded : s.Grounded q) {p : PointerId} {l : Location} {delta : ObjectSet}
    (read : s.locationAt? p = some l) (sent : ∀ x ∈ delta, s.GroundedObject q p x) :
    Ensures s (react p delta) fun _ => s.Tallies (delta.toList.map (s.missedAt p)).sum := by
  obtain ⟨k, present, place⟩ := SolverState.locationAt?_eq_some_iff.1 read
  unfold react
  split
  · rename_i none
    have nil : delta.toList = [] := List.isEmpty_iff.1 none
    rw [nil]
    exact .pure (.refl s)
  · refine .get (.lookup fun k' known => ?_)
    obtain rfl : k = k' := Option.some.inj (present.symm.trans (fetch_eq_ok_iff.1 known))
    cases k with
    | var c v =>
      obtain ⟨t, var, trail, read', declared, reached⟩ := grounded.exists_varAt lawful.program present
      rw [read] at read'
      obtain rfl := Option.some.inj read'
      have each : Ensures s (delta.toList.forM (processObject c v)) fun _ =>
          s.Tallies (delta.toList.map (s.missedAt p)).sum := by
        refine forM_tallies grounded fun x listed s' grounded' grow => ?_
        obtain ⟨l', o, place', object, held⟩ := sent x listed
        rw [read] at place'
        obtain rfl := Option.some.inj place'
        rw [← grow.missedAt (sent x listed)]
        exact (processObject_meets lawful declared reached held grounded' (grow.trail? trail)
          (grow.heapObj? object)).tallies
            (processObject_tallies lawful declared reached held grounded'
              (Table.get?_of_prefix grow.pointers present) (grow.trail? trail)
              (grow.heapObj? object))
      exact each.bind fun _ s₁ tallies => .pure tallies
    | _ =>
      have none : ∀ x ∈ delta.toList, s.missedAt p x = 0 := by
        intro x _
        rw [SolverState.missedAt, SolverState.callsAt, present]
        rfl
      rw [List.map_congr_left none, List.map_const', List.sum_replicate_nat, Nat.mul_zero]
      exact .pure (.refl s)

/-! ## Steps and runs -/

/-- After a step, all that reachable methods and arrived objects account for has been counted. -/
theorem step_accounted (grounded : s.Grounded q) (indexed : s.flow.Indexed)
    {arrivals : Finset (PointerId × CsObjId)} (accounted : s.Accounted arrivals 0) :
    Ensures s step fun _ s' => ∃ arrivals, s'.Accounted arrivals 0 := by
  rcases grounded.step_cases with ⟨-, run⟩ | ⟨e, rest, known, l, head, found, read, sent, run⟩
  · exact .of_ok run ⟨arrivals, accounted⟩
  · have grow := SolverState.grows_delivered head found
    have grounded₁ := grounded.delivered indexed head found
    have read₁ := grow.locationAt? read
    have sent₁ := fun x mem => grow.groundedObject (sent x mem)
    have reacted := (react_meets lawful grounded₁ read₁ sent₁).tallies
      (react_tallies lawful grounded₁ read₁ sent₁)
    refine .of_run run (reacted.imp fun _ s' ⟨_, grow', tallies⟩ => ?_)
    exact ⟨_, (accounted.delivered grounded head found).tallies grounded₁ grow' tallies⟩

/-- All calls without a target have been counted at the end of a run of steps. -/
theorem stepAll_accounted {bound : Nat} (fits : P.program.Fits bound) (rounds : Nat)
    {s : SolverState P} (grounded : s.Grounded q) (indexed : s.flow.Indexed)
    {arrivals : Finset (PointerId × CsObjId)} (accounted : s.Accounted arrivals 0) :
    Ensures s (stepAll rounds) fun _ s' => ∃ arrivals, s'.Accounted arrivals 0 := by
  induction rounds generalizing s arrivals with
  | zero => exact .throw
  | succ rounds ih =>
    have meets := (step_meets lawful grounded indexed).indexed (step_moves fits s) indexed
    have first : Ensures s step fun _ s' =>
        s'.Grounded q ∧ s'.flow.Indexed ∧ ∃ arrivals, s'.Accounted arrivals 0 := by
      intro again s₁ run
      obtain ⟨grounded₁, -, -, indexed₁⟩ := meets.ok run
      exact ⟨grounded₁, indexed₁, step_accounted lawful grounded indexed accounted again s₁ run⟩
    refine first.bind fun again s₁ ⟨grounded₁, indexed₁, arrivals₁, accounted₁⟩ => ?_
    cases again with
    | false => exact .pure ⟨arrivals₁, accounted₁⟩
    | true => exact ih grounded₁ indexed₁ accounted₁

omit lawful in
theorem enter_tallies (m : MethodId) : Ensures s (enter m) fun _ => s.Tallies 0 := by
  refine (csMethod_tallies .empty m).bind fun x s₁ tallies₁ => .then (modify_run s₁ _) ?_
  have marked : s₁.Tallies 0 { s₁ with callGraph := s₁.callGraph.addEntry x } :=
    .of_same (SolverState.kept_of_change (.entry s₁ x)) id rfl rfl
  exact (addReachable_tallies x).imp fun _ s₂ tallies₂ => (tallies₁.then marked).then tallies₂

omit lawful in
theorem start_tallies : Ensures s start fun _ => s.Tallies 0 := by
  refine .get ?_
  split
  · exact .pure (.refl s)
  · split
    · exact .throw
    · have marked : s.Tallies 0 { s with initialized := true } :=
        .of_same (SolverState.kept_of_change (.initialized s)) id rfl rfl
      refine .then (modify_run s _) (.forM (fun m _ s₁ tallies₁ => ?_) marked)
      exact (enter_tallies m).imp fun _ s₂ => tallies₁.then

/-- All calls without a target have been counted at the end of a run from the beginning. -/
theorem solve_accounted {bound : Nat} (fits : P.program.Fits bound) :
    Ensures (SolverState.initial P) solve fun _ s => ∃ arrivals, s.Accounted arrivals 0 := by
  have grounded := SolverState.grounded_initial lawful
  have meets := (start_meets lawful grounded).indexed (start_moves fits _) FlowGraph.indexed_empty
  have first : Ensures (SolverState.initial P) start fun _ s =>
      s.Grounded q ∧ s.flow.Indexed ∧ s.Accounted ∅ 0 := by
    intro a s₁ run
    obtain ⟨grounded₁, progress, -, indexed₁⟩ := meets.ok run
    exact ⟨grounded₁, indexed₁,
      SolverState.accounted_initial.tallies grounded progress.toGrows (start_tallies a s₁ run)⟩
  refine first.bind fun _ s₁ ⟨grounded₁, indexed₁, accounted₁⟩ => ?_
  refine (stepAll_accounted lawful fits P.limit grounded₁ indexed₁ accounted₁).bind
    fun _ s₂ ⟨arrivals, accounted₂⟩ => .of_ok (recordSizes_run s₂) ⟨arrivals, ?_⟩
  exact ⟨accounted₂.contains, accounted₂.unresolved⟩

end Solve

end PointsTo
