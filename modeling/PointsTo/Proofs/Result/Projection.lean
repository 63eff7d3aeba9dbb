import PointsTo.Proofs.Analysis.Contexts
import PointsTo.Proofs.Result.Queries

/-!
# Answers without contexts

A question about a variable, a field or an array alone is answered with what the same question gives
under all contexts, without heap contexts: the answer has those objects and no others, each once and in
ascending order. So two variables may hold the same object exactly when their answers have a common
one.
-/

namespace PointsTo

variable {P : Problem} {q : Policy}

namespace Result

/-- An answer under contexts has an object under a heap context. -/
def Tells (answer : Except OutOfRange (List CsObj)) (x : CsObj) : Prop :=
  ∃ held, answer = .ok held ∧ x ∈ held

/-- An answer without contexts lists, in ascending order, the objects that are told of under some heap
context. -/
def Gathers (answer : Except OutOfRange (IdSet .object)) (told : CsObj → Prop) : Prop :=
  ∃ set, answer = .ok set ∧ Ascending set.toList ∧ ∀ o, o ∈ set.toList ↔ ∃ h, told ⟨h, o⟩

/-- The answers without contexts are the projections of the answers under contexts. -/
structure Projects (r : Result P) : Prop where
  /-- There is an answer for every location. -/
  answers (k : PointerKey) : ∃ held, r.csPointsToAt k = .ok held
  pointsTo (v : VarId) : Gathers (r.pointsTo v) fun x => ∃ c, Tells (r.csPointsTo c v) x
  staticFields (f : FieldId) :
    Gathers (r.staticFieldPointsTo f) fun x => Tells (r.csPointsToAt (.staticField f)) x
  instanceFields (b : ObjId) (f : FieldId) : Gathers (r.instanceFieldPointsTo b f) fun x =>
    ∃ base h, r.state.elements.csObjAt base = .ok ⟨h, b⟩ ∧
      Tells (r.csInstanceFieldPointsTo base f) x
  arrays (b : ObjId) : Gathers (r.arrayPointsTo b) fun x =>
    ∃ base h, r.state.elements.csObjAt base = .ok ⟨h, b⟩ ∧
      Tells (r.csPointsToAt (.arrayIndex base)) x
  vars : Ascending r.vars.toList ∧ ∀ v, v ∈ r.vars.toList ↔ ∃ c, (c, v) ∈ r.csVars
  mayAlias (v w : VarId) : ∃ set set' answer, r.pointsTo v = .ok set ∧ r.pointsTo w = .ok set' ∧
    r.mayAlias v w = .ok answer ∧ r.mayAlias w v = .ok answer ∧
    (answer = true ↔ ∃ o, o ∈ set.toList ∧ o ∈ set'.toList)

variable {r : Result P}

section Grounded

variable (grounded : r.state.Grounded q)
include grounded

/-! ## One location -/

/-- The answer for a location has what its set contains. -/
theorem exists_csPointsToAt (k : PointerKey) :
    ∃ held, r.csPointsToAt k = .ok held ∧ ∀ x, x ∈ held ↔ ∃ p y,
      r.state.elements.pointers.get? p.index = some k ∧ r.state.Contains p y ∧
      r.state.elements.objects.get? y.index = some x := by
  cases asked : r.state.elements.findPointer? k with
  | none =>
    refine ⟨[], by rw [csPointsToAt, asked], fun x => ?_⟩
    constructor
    · intro mem
      simp at mem
    · rintro ⟨p, y, known, -⟩
      rw [← ElementStore.findPointer?_eq_some_iff, asked] at known
      cases known
  | some p =>
    have known := ElementStore.findPointer?_eq_some_iff.1 asked
    obtain ⟨l, place, -⟩ := grounded.exists_locationAt? known
    obtain ⟨set, found⟩ := SolverState.exists_pointsToSet place
    obtain ⟨held, listed⟩ := exists_mapM_eq_ok (f := r.state.elements.csObjAt) fun y mem => by
      obtain ⟨-, o, -, object, -⟩ :=
        grounded.sent p y (Or.inl ⟨set, fetch_eq_ok_iff.1 found, mem⟩)
      exact SolverState.exists_csObjAt object
    refine ⟨held, ?_, fun x => ?_⟩
    · simp only [csPointsToAt, asked, found, bind, Except.bind]
      exact listed
    · rw [mem_of_mapM_eq_ok listed]
      constructor
      · rintro ⟨y, mem, named⟩
        exact ⟨p, y, known, ⟨set, fetch_eq_ok_iff.1 found, mem⟩, fetch_eq_ok_iff.1 named⟩
      · rintro ⟨p', y, known', ⟨set', found', mem⟩, named⟩
        obtain rfl : p' = p := by
          rw [← ElementStore.findPointer?_eq_some_iff, asked] at known'
          exact (Option.some.inj known').symm
        rw [fetch_eq_ok_iff.1 found] at found'
        obtain rfl := Option.some.inj found'
        exact ⟨y, mem, fetch_eq_ok_iff.2 named⟩

theorem tells_iff {k : PointerKey} {x : CsObj} : Tells (r.csPointsToAt k) x ↔ ∃ p y,
    r.state.elements.pointers.get? p.index = some k ∧ r.state.Contains p y ∧
    r.state.elements.objects.get? y.index = some x := by
  obtain ⟨held, answer, members⟩ := exists_csPointsToAt grounded k
  rw [← members]
  constructor
  · rintro ⟨held', answer', mem⟩
    rw [answer] at answer'
    rwa [Except.ok.inj answer']
  · intro mem
    exact ⟨held, answer, mem⟩

/-! ## Several locations -/

/-- The sets of some locations are merged to what the answers for these locations have. -/
theorem gathers_of_keys (ps : List PointerId) (keys : PointerKey → Prop)
    (located : ∀ p, p ∈ ps ↔ ∃ k, r.state.elements.pointers.get? p.index = some k ∧ keys k) :
    Gathers (r.merge ps) fun x => ∃ k, keys k ∧ Tells (r.csPointsToAt k) x := by
  obtain ⟨set, merged, members⟩ := exists_merge_iff grounded ps fun p mem => by
    obtain ⟨k, known, -⟩ := (located p).1 mem
    obtain ⟨l, place, -⟩ := grounded.exists_locationAt? known
    exact ⟨l, place⟩
  refine ⟨set, merged, set.ascending, fun o => (members o).trans ?_⟩
  constructor
  · rintro ⟨p, mem, y, ⟨h, o'⟩, contains, named, rfl⟩
    obtain ⟨k, known, asked⟩ := (located p).1 mem
    exact ⟨h, k, asked, (tells_iff grounded).2 ⟨p, y, known, contains, named⟩⟩
  · rintro ⟨h, k, asked, told⟩
    obtain ⟨p, y, known, contains, named⟩ := (tells_iff grounded).1 told
    exact ⟨p, (located p).2 ⟨k, known, asked⟩, y, ⟨h, o⟩, contains, named, rfl⟩

/-- The locations of a list whose base is an object are merged under all heap contexts of it. -/
theorem gathers_withBase (b : ObjId) {ps : List (PointerId × CsObjId)} (key : CsObjId → PointerKey)
    (listed : ∀ p base, (p, base) ∈ ps ↔ r.state.elements.pointers.get? p.index = some (key base))
    (named : ∀ p base, (p, base) ∈ ps → ∃ o, r.state.heapObj? base = some o) :
    Gathers (do r.merge (← r.withBase b ps)) fun x => ∃ base h,
      r.state.elements.csObjAt base = .ok ⟨h, b⟩ ∧ Tells (r.csPointsToAt (key base)) x := by
  obtain ⟨kept, selected, members⟩ := exists_withBase_iff b named
  obtain ⟨set, merged, ascending, objects⟩ := gathers_of_keys grounded kept
    (fun k => ∃ base h, r.state.elements.csObjAt base = .ok ⟨h, b⟩ ∧ k = key base) fun p => by
    rw [members]
    constructor
    · rintro ⟨base, ⟨h, b'⟩, mem, known, rfl⟩
      exact ⟨key base, (listed p base).1 mem, base, h, fetch_eq_ok_iff.2 known, rfl⟩
    · rintro ⟨k, known, base, h, object, rfl⟩
      exact ⟨base, ⟨h, b⟩, (listed p base).2 known, fetch_eq_ok_iff.1 object, rfl⟩
  refine ⟨set, bind_eq_ok_iff.2 ⟨kept, selected, merged⟩, ascending, fun o => ?_⟩
  rw [objects]
  constructor
  · rintro ⟨h, k, ⟨base, h', object, rfl⟩, told⟩
    exact ⟨h, base, h', object, told⟩
  · rintro ⟨h, base, h', object, told⟩
    exact ⟨h, key base, ⟨base, h', object, rfl⟩, told⟩

/-! ## All questions -/

theorem gathers_pointsTo (v : VarId) :
    Gathers (r.pointsTo v) fun x => ∃ c, Tells (r.csPointsTo c v) x := by
  have gathered : Gathers (r.pointsTo v) fun x =>
      ∃ k, (∃ c, k = .var c v) ∧ Tells (r.csPointsToAt k) x := by
    refine gathers_of_keys grounded _ _ fun p => ?_
    rw [ElementStore.mem_ofVar]
    constructor
    · rintro ⟨c, known⟩
      exact ⟨_, known, c, rfl⟩
    · rintro ⟨k, known, c, rfl⟩
      exact ⟨c, known⟩
  obtain ⟨set, merged, ascending, members⟩ := gathered
  refine ⟨set, merged, ascending, fun o => (members o).trans ?_⟩
  constructor
  · rintro ⟨h, k, ⟨c, rfl⟩, told⟩
    exact ⟨h, c, told⟩
  · rintro ⟨h, c, told⟩
    exact ⟨h, _, ⟨c, rfl⟩, told⟩

theorem gathers_staticField (f : FieldId) :
    Gathers (r.staticFieldPointsTo f) fun x => Tells (r.csPointsToAt (.staticField f)) x := by
  obtain ⟨set, merged, ascending, members⟩ := gathers_of_keys grounded
    (r.state.elements.findPointer? (.staticField f)).toList (· = .staticField f) fun p => by
    rw [Option.mem_toList, ElementStore.findPointer?_eq_some_iff]
    simp
  exact ⟨set, merged, ascending, by simpa using members⟩

theorem gathers_instanceField (b : ObjId) (f : FieldId) :
    Gathers (r.instanceFieldPointsTo b f) fun x => ∃ base h,
      r.state.elements.csObjAt base = .ok ⟨h, b⟩ ∧
      Tells (r.csInstanceFieldPointsTo base f) x := by
  refine gathers_withBase grounded b (fun base => .instanceField base f)
    (fun p base => ElementStore.mem_ofField) fun p base mem => ?_
  exact grounded.exists_base_of_instanceField (ElementStore.mem_ofField.1 mem)

theorem gathers_array (b : ObjId) :
    Gathers (r.arrayPointsTo b) fun x => ∃ base h,
      r.state.elements.csObjAt base = .ok ⟨h, b⟩ ∧
      Tells (r.csPointsToAt (.arrayIndex base)) x := by
  refine gathers_withBase grounded b .arrayIndex
    (fun p base => ElementStore.mem_arrayPointers) fun p base mem => ?_
  exact grounded.exists_base_of_arrayIndex (ElementStore.mem_arrayPointers.1 mem)

theorem exists_mayAlias (v w : VarId) : ∃ set set' answer, r.pointsTo v = .ok set ∧
    r.pointsTo w = .ok set' ∧ r.mayAlias v w = .ok answer ∧ r.mayAlias w v = .ok answer ∧
    (answer = true ↔ ∃ o, o ∈ set.toList ∧ o ∈ set'.toList) := by
  obtain ⟨set, held, -⟩ := gathers_pointsTo grounded v
  obtain ⟨set', held', -⟩ := gathers_pointsTo grounded w
  have symmetric : set'.intersects set = set.intersects set' := by
    rw [Bool.eq_iff_iff, IdSet.intersects_iff, IdSet.intersects_iff]
    simp only [and_comm]
  refine ⟨set, set', set.intersects set', held, held', ?_, ?_, IdSet.intersects_iff⟩
  · simp only [mayAlias, held, held', bind, Except.bind]
    rfl
  · simp only [mayAlias, held, held', bind, Except.bind]
    rw [symmetric]
    rfl

theorem projects : r.Projects where
  answers k := by
    obtain ⟨held, answer, -⟩ := exists_csPointsToAt grounded k
    exact ⟨held, answer⟩
  pointsTo := gathers_pointsTo grounded
  staticFields := gathers_staticField grounded
  instanceFields := gathers_instanceField grounded
  arrays := gathers_array grounded
  vars := by
    refine ⟨r.vars.ascending, fun v => ?_⟩
    rw [← IdSet.mem_def, vars, IdSet.mem_ofList, csVars, List.mem_map]
    simp only [List.mem_map]
    constructor
    · rintro ⟨⟨p, c, w⟩, listed, rfl⟩
      exact ⟨c, ⟨p, c, w⟩, listed, rfl⟩
    · rintro ⟨c, ⟨p, c', w⟩, listed, same⟩
      exact ⟨⟨p, c', w⟩, listed, congrArg Prod.snd same⟩
  mayAlias := exists_mayAlias grounded

end Grounded

end Result

namespace Config

variable {p : Program}

/-- Whatever the program, the configuration and the calls: the state gives a result, and what it
answers without contexts is the projection of what it answers under contexts. -/
theorem projects_of_reached (c : Config) (built : p.Built) :
    ∃ h, Hierarchy.ofProgram p = .ok h ∧ h.program = p ∧
      ∀ s : SolverState (c.problem .bySite h), s.Reached → ∀ collectStats,
        ∃ r, Result.ofState s collectStats = .ok r ∧ r.state = s ∧ r.Projects := by
  obtain ⟨h, hierarchy, same⟩ := Hierarchy.exists_ofProgram built.wellFormed.toChecked
  have lawful := (c.problem_regular built hierarchy).toLawful
  refine ⟨h, hierarchy, same, fun s reached collectStats => ?_⟩
  have grounded := reached.grounded lawful
  obtain ⟨g, merged, -⟩ := grounded.exists_mergedCallGraph
  refine ⟨⟨s, g, if collectStats then some s.stats else none⟩, ?_, rfl, Result.projects grounded⟩
  rw [Result.ofState, merged]
  rfl

/-- Under contexts of two objects the called method runs three times. Its receiver holds both objects
over all contexts, its variable only the second. -/
theorem projects_of_reached_selfGrowing : selfGrowing.Built ∧
    ∃ h, ∃ s : SolverState (Preset.thorough.config.problem .bySite h), ∃ r,
      Hierarchy.ofProgram selfGrowing = .ok h ∧ s.Reached ∧ Result.ofState s true = .ok r ∧
      r.Projects ∧ (r.pointsTo ⟨0⟩).toOption.map (·.toList) = some [⟨0⟩, ⟨1⟩] ∧
      (r.pointsTo ⟨2⟩).toOption.map (·.toList) = some [⟨1⟩] ∧ r.mayAlias ⟨0⟩ ⟨2⟩ = .ok true := by
  obtain ⟨h, hierarchy, -, projects⟩ := projects_of_reached Preset.thorough.config built_selfGrowing
  have runs : selfGrowing.passes (fun h =>
      Solve.passes Solve.solve (.initial (Preset.thorough.config.problem .bySite h)) fun s =>
        match Result.ofState s true with
        | .error _ => false
        | .ok r => (r.pointsTo ⟨0⟩).toOption.map (·.toList) == some [⟨0⟩, ⟨1⟩] &&
            (r.pointsTo ⟨2⟩).toOption.map (·.toList) == some [⟨1⟩] &&
            (r.mayAlias ⟨0⟩ ⟨2⟩).toOption == some true) = true := by
    decide +kernel
  obtain ⟨⟨⟩, s, run, found⟩ := Solve.exists_of_passes (Program.test_of_passes hierarchy runs)
  have reached : s.Reached := .solve .initial (Or.inl ⟨(), run⟩)
  obtain ⟨r, answered, -, projects⟩ := projects s reached true
  rw [answered] at found
  simp only [Bool.and_eq_true, beq_iff_eq, toOption_eq_some_iff] at found
  obtain ⟨⟨receiver, var⟩, common⟩ := found
  exact ⟨built_selfGrowing, h, s, r, hierarchy, reached, answered, projects, receiver, var, common⟩

end Config

end PointsTo
