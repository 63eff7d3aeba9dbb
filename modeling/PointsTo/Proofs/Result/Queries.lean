import PointsTo.Proofs.CallGraph.Projection
import PointsTo.Proofs.Solver.Grounded
import PointsTo.Result.Basic

/-!
# Answers of results

What the questions to a result are answered with, in terms of what its state says. Questions without
contexts merge the answers under all contexts, and they name objects without heap contexts.
-/

namespace PointsTo

open Inclusion

variable {P : Problem} {q : Policy}

namespace SolverState

/-- A set has the objects that some places hold, whatever their heap contexts are. -/
def Collects (s : SolverState P) (places : Location → Prop) (set : IdSet .object) : Prop :=
  ∀ o, o ∈ set ↔ ∃ l t obj, places l ∧ s.objects[o.index]? = some obj ∧
    s.Holds (.pointsTo l ⟨t, obj.site⟩)

variable {s : SolverState P}

/-! ## Look-ups that succeed -/

theorem exists_csObjAt {x : CsObjId} {o : HeapObj} (object : s.heapObj? x = some o) :
    ∃ cs, s.elements.csObjAt x = .ok cs := by
  obtain ⟨cs, -, known, -⟩ := heapObj?_eq_some_iff.1 object
  exact ⟨cs, fetch_eq_ok_iff.2 known⟩

/-- An object under a heap context is known by its allocation. -/
theorem obj_eq_iff (distinct : s.DistinctSites) {x : CsObjId} {cs : CsObj} {o : HeapObj}
    (known : s.elements.objects.get? x.index = some cs) (object : s.heapObj? x = some o)
    {i : ObjId} : cs.obj = i ↔ ∃ obj, s.objects[i.index]? = some obj ∧ obj.site = o.site := by
  obtain ⟨cs', obj, known', found, -, same⟩ := heapObj?_eq_some_iff.1 object
  rw [known] at known'
  obtain rfl := Option.some.inj known'
  constructor
  · rintro rfl
    exact ⟨obj, found, same⟩
  · rintro ⟨obj', found', same'⟩
    exact Id.ext_index (distinct _ _ _ _ found found' (same.trans same'.symm))

theorem Grounded.exists_base_of_instanceField (grounded : s.Grounded q) {p : PointerId}
    {x : CsObjId} {f : FieldId}
    (known : s.elements.pointers.get? p.index = some (.instanceField x f)) :
    ∃ base, s.heapObj? x = some base := by
  obtain ⟨l, -, read, -⟩ := grounded.exists_locationAt? known
  obtain ⟨base, object, -⟩ := Option.map_eq_some_iff.1 read
  exact ⟨base, object⟩

theorem Grounded.exists_base_of_arrayIndex (grounded : s.Grounded q) {p : PointerId} {x : CsObjId}
    (known : s.elements.pointers.get? p.index = some (.arrayIndex x)) :
    ∃ base, s.heapObj? x = some base := by
  obtain ⟨l, -, read, -⟩ := grounded.exists_locationAt? known
  obtain ⟨base, object, -⟩ := Option.map_eq_some_iff.1 read
  exact ⟨base, object⟩

/-! ## The call graph -/

theorem method_of_activation? {m : CsMethodId} {a : Activation} (read : s.activation? m = some a) :
    (do return (← s.elements.csMethodAt m).method) = Except.ok (ε := OutOfRange) a.method := by
  obtain ⟨c, known, -⟩ := activation?_eq_some_iff.1 read
  exact bind_eq_ok_iff.2 ⟨⟨c, a.method⟩, fetch_eq_ok_iff.2 known, rfl⟩

theorem invoke_of_callPoint? {i : CsCallSiteId} {site : CallPoint}
    (read : s.callPoint? i = some site) :
    (do return (← s.elements.csCallSiteAt i).invoke) = Except.ok (ε := OutOfRange) site.invoke := by
  obtain ⟨c, known, -⟩ := callPoint?_eq_some_iff.1 read
  exact bind_eq_ok_iff.2 ⟨⟨c, site.invoke⟩, fetch_eq_ok_iff.2 known, rfl⟩

/-- The merged call graph has the methods that can run under some context, and the calls that can be
made under some contexts. -/
theorem Grounded.exists_mergedCallGraph (grounded : s.Grounded q) :
    ∃ g, s.mergedCallGraph = .ok g ∧
      (∀ m, m ∈ g.reachable.toList ↔ ∃ t, s.Holds (.reachable ⟨t, m⟩)) ∧
      ∀ e, e ∈ g.edges.toList ↔ ∃ t t', s.Holds (.calls e.kind ⟨t, e.site⟩ ⟨t', e.callee⟩) := by
  obtain ⟨g, projected, methods, calls⟩ := CallGraph.exists_project (g := s.callGraph)
    (fun i => do return (← s.elements.csCallSiteAt i).invoke)
    (fun m => do return (← s.elements.csMethodAt m).method)
    (fun m listed => by
      obtain ⟨e, -, read⟩ := grounded.entries m listed
      exact ⟨e, method_of_activation? read⟩)
    (fun m listed => by
      obtain ⟨a, read, -⟩ := grounded.reachable m listed
      refine ⟨⟨a.method, method_of_activation? read⟩, fun i mem => ?_⟩
      obtain ⟨a', method, -, -, sites⟩ := grounded.sites m listed
      have point : s.callPoint? i ∈ (s.callGraph.sitesIn m).map s.callPoint? :=
        List.mem_map_of_mem mem
      rw [sites] at point
      obtain ⟨j, -, same⟩ := List.mem_map.1 point
      exact ⟨j, invoke_of_callPoint? same.symm⟩)
    (fun e listed => by
      obtain ⟨site, a, point, callee, -⟩ := grounded.callEdges e listed
      exact ⟨⟨_, invoke_of_callPoint? point⟩, _, method_of_activation? callee⟩)
  refine ⟨g, projected, fun m => ?_, fun e => ?_⟩
  · rw [methods]
    constructor
    · rintro ⟨x, listed, found⟩
      obtain ⟨⟨t, m'⟩, read, -⟩ := grounded.reachable x listed
      rw [method_of_activation? read] at found
      obtain rfl := Except.ok.inj found
      exact ⟨t, x, listed, read⟩
    · rintro ⟨t, x, listed, read⟩
      exact ⟨x, listed, method_of_activation? read⟩
  · rw [calls]
    constructor
    · rintro ⟨x, listed, kind, site, callee⟩
      obtain ⟨⟨t, i⟩, ⟨t', m⟩, point, target, -⟩ := grounded.callEdges x listed
      rw [invoke_of_callPoint? point] at site
      rw [method_of_activation? target] at callee
      rw [← Except.ok.inj site, ← Except.ok.inj callee]
      exact ⟨t, t', x, listed, kind, point, target⟩
    · rintro ⟨t, t', x, listed, kind, point, target⟩
      exact ⟨x, listed, kind, invoke_of_callPoint? point, method_of_activation? target⟩

end SolverState

namespace Result

variable {r : Result P}

/-! ## Merging -/

/-- The locations of a list whose base is an object with some name. -/
theorem exists_withBase_iff (o : ObjId) {ps : List (PointerId × CsObjId)}
    (named : ∀ p x, (p, x) ∈ ps → ∃ base, r.state.heapObj? x = some base) :
    ∃ kept, r.withBase o ps = .ok kept ∧ ∀ p, p ∈ kept ↔ ∃ x cs, (p, x) ∈ ps ∧
      r.state.elements.objects.get? x.index = some cs ∧ cs.obj = o := by
  obtain ⟨kept, filtered, members⟩ := exists_filterM_mem_iff
    (f := fun a : PointerId × CsObjId => do
      return decide ((← r.state.elements.csObjAt a.2).obj = o)) (l := ps) fun a mem => by
    obtain ⟨base, object⟩ := named a.1 a.2 mem
    obtain ⟨cs, found⟩ := SolverState.exists_csObjAt object
    exact ⟨decide (cs.obj = o), by rw [found]; rfl⟩
  refine ⟨kept.map (·.1), ?_, fun p => ?_⟩
  · rw [withBase]
    exact bind_eq_ok_iff.2 ⟨kept, filtered, rfl⟩
  · rw [List.mem_map]
    constructor
    · rintro ⟨⟨p', x⟩, mem, rfl⟩
      obtain ⟨listed, tested⟩ := (members _).1 mem
      obtain ⟨cs, found, same⟩ := bind_eq_ok_iff.1 tested
      exact ⟨x, cs, listed, fetch_eq_ok_iff.1 found,
        of_decide_eq_true (pure_eq_ok_iff.1 same)⟩
    · rintro ⟨x, cs, listed, known, same⟩
      refine ⟨(p, x), (members _).2 ⟨listed, ?_⟩, rfl⟩
      exact bind_eq_ok_iff.2 ⟨cs, fetch_eq_ok_iff.2 known, by simp [same, pure, Except.pure]⟩

section Grounded

variable (lawful : P.Lawful q) (grounded : r.state.Grounded q)
include grounded

/-- The sets of some locations have the objects under heap contexts that the locations contain. -/
theorem exists_merge_iff (ps : List PointerId)
    (located : ∀ p ∈ ps, ∃ l, r.state.locationAt? p = some l) :
    ∃ set, r.merge ps = .ok set ∧ ∀ o, o ∈ set ↔ ∃ p ∈ ps, ∃ x cs, r.state.Contains p x ∧
      r.state.elements.objects.get? x.index = some cs ∧ cs.obj = o := by
  obtain ⟨sets, fetched⟩ := exists_mapM_eq_ok (f := r.state.elements.pointsToSet) fun p mem => by
    obtain ⟨l, place⟩ := located p mem
    exact SolverState.exists_pointsToSet place
  have members : ∀ x, x ∈ sets.flatMap (·.toList) ↔ ∃ p ∈ ps, r.state.Contains p x := by
    intro x
    rw [List.mem_flatMap]
    constructor
    · rintro ⟨set, listed, mem⟩
      obtain ⟨p, asked, found⟩ := (mem_of_mapM_eq_ok fetched).1 listed
      exact ⟨p, asked, set, fetch_eq_ok_iff.1 found, mem⟩
    · rintro ⟨p, asked, set, found, mem⟩
      exact ⟨set, (mem_of_mapM_eq_ok fetched).2 ⟨p, asked, fetch_eq_ok_iff.2 found⟩, mem⟩
  obtain ⟨objects, named⟩ := exists_mapM_eq_ok (f := r.state.elements.csObjAt) fun x mem => by
    obtain ⟨p, -, contains⟩ := (members x).1 mem
    obtain ⟨-, o, -, object, -⟩ := grounded.sent p x (Or.inl contains)
    exact SolverState.exists_csObjAt object
  refine ⟨IdSet.ofList (objects.map (·.obj)), ?_, fun o => ?_⟩
  · simp only [merge, fetched, named, bind, Except.bind]
    rfl
  · rw [IdSet.mem_ofList, List.mem_map]
    constructor
    · rintro ⟨cs, listed, same⟩
      obtain ⟨x, mem, found⟩ := (mem_of_mapM_eq_ok named).1 listed
      obtain ⟨p, asked, contains⟩ := (members x).1 mem
      exact ⟨p, asked, x, cs, contains, fetch_eq_ok_iff.1 found, same⟩
    · rintro ⟨p, asked, x, cs, contains, known, same⟩
      have mem := (members x).2 ⟨p, asked, contains⟩
      exact ⟨cs, (mem_of_mapM_eq_ok named).2 ⟨x, mem, fetch_eq_ok_iff.2 known⟩, same⟩

include lawful

/-- The locations that stand for some places are merged to what these places hold. -/
theorem exists_merge (ps : List PointerId) (places : Location → Prop)
    (located : ∀ p, p ∈ ps ↔ ∃ l, r.state.locationAt? p = some l ∧ places l) :
    ∃ set, r.merge ps = .ok set ∧ r.state.Collects places set := by
  obtain ⟨set, merged, members⟩ := exists_merge_iff grounded ps fun p mem => by
    obtain ⟨l, place, -⟩ := (located p).1 mem
    exact ⟨l, place⟩
  have distinct := grounded.distinctSites lawful
  refine ⟨set, merged, fun o => ?_⟩
  rw [members]
  constructor
  · rintro ⟨p, mem, x, cs, contains, known, same⟩
    obtain ⟨l, place, asked⟩ := (located p).1 mem
    obtain ⟨⟨t, site⟩, object, -⟩ := grounded.exists_heapObj? known
    obtain ⟨obj, found, rfl⟩ := (SolverState.obj_eq_iff distinct known object).1 same
    exact ⟨l, t, obj, asked, found, p, x, place, object, contains⟩
  · rintro ⟨l, t, obj, asked, found, p, x, place, object, contains⟩
    obtain ⟨cs, -, known, -⟩ := SolverState.heapObj?_eq_some_iff.1 object
    have same := (SolverState.obj_eq_iff distinct known object).2 ⟨obj, found, rfl⟩
    exact ⟨p, (located p).2 ⟨l, place, asked⟩, x, cs, contains, known, same⟩

/-! ## Questions -/

/-- A variable is asked about under all contexts. -/
theorem exists_pointsTo (v : VarId) :
    ∃ set, r.pointsTo v = .ok set ∧ r.state.Collects (fun l => ∃ t, l = .var t v) set := by
  refine exists_merge lawful grounded _ _ fun p => ?_
  rw [ElementStore.mem_ofVar]
  constructor
  · rintro ⟨c, known⟩
    obtain ⟨l, place, read, -⟩ := grounded.exists_locationAt? known
    obtain ⟨t, -, rfl⟩ := Option.map_eq_some_iff.1 read
    exact ⟨_, place, t, rfl⟩
  · rintro ⟨l, place, t, rfl⟩
    obtain ⟨k, known, read⟩ := SolverState.locationAt?_eq_some_iff.1 place
    obtain ⟨c, rfl, -⟩ := SolverState.location?_eq_some_var_iff.1 read
    exact ⟨c, known⟩

theorem exists_staticFieldPointsTo (f : FieldId) :
    ∃ set, r.staticFieldPointsTo f = .ok set ∧
      r.state.Collects (fun l => l = .staticField f) set := by
  refine exists_merge lawful grounded _ _ fun p => ?_
  rw [Option.mem_toList, ElementStore.findPointer?_eq_some_iff]
  constructor
  · intro known
    exact ⟨_, SolverState.locationAt?_eq_some_iff.2 ⟨_, known, rfl⟩, rfl⟩
  · rintro ⟨l, place, rfl⟩
    obtain ⟨k, known, read⟩ := SolverState.locationAt?_eq_some_iff.1 place
    rw [SolverState.location?_eq_some_staticField_iff.1 read] at known
    exact known

/-- The objects that the fields or elements of an object may hold, if the list has all locations of
this kind with their bases. -/
theorem exists_merge_withBase (o : ObjId) {ps : List (PointerId × CsObjId)}
    (place : HeapObj → Location)
    (named : ∀ p x, (p, x) ∈ ps → ∃ base, r.state.heapObj? x = some base)
    (located : ∀ p base, r.state.locationAt? p = some (place base) ↔
      ∃ x, (p, x) ∈ ps ∧ r.state.heapObj? x = some base) :
    ∃ set, (do r.merge (← r.withBase o ps)) = .ok set ∧
      r.state.Collects (fun l => ∃ t obj, r.state.objects[o.index]? = some obj ∧
        l = place ⟨t, obj.site⟩) set := by
  have distinct := grounded.distinctSites lawful
  obtain ⟨kept, selected, members⟩ := exists_withBase_iff o named
  obtain ⟨set, merged, collects⟩ := exists_merge lawful grounded kept
    (fun l => ∃ t obj, r.state.objects[o.index]? = some obj ∧ l = place ⟨t, obj.site⟩)
    fun p => by
    rw [members]
    constructor
    · rintro ⟨x, cs, listed, known, same⟩
      obtain ⟨⟨t, site⟩, object⟩ := named p x listed
      obtain ⟨obj, found, rfl⟩ := (SolverState.obj_eq_iff distinct known object).1 same
      exact ⟨_, (located p _).2 ⟨x, listed, object⟩, t, obj, found, rfl⟩
    · rintro ⟨l, read, t, obj, found, rfl⟩
      obtain ⟨x, listed, object⟩ := (located p _).1 read
      obtain ⟨cs, -, known, -⟩ := SolverState.heapObj?_eq_some_iff.1 object
      have same := (SolverState.obj_eq_iff distinct known object).2 ⟨obj, found, rfl⟩
      exact ⟨x, cs, listed, known, same⟩
  exact ⟨set, bind_eq_ok_iff.2 ⟨kept, selected, merged⟩, collects⟩

theorem exists_instanceFieldPointsTo (o : ObjId) (f : FieldId) :
    ∃ set, r.instanceFieldPointsTo o f = .ok set ∧
      r.state.Collects (fun l => ∃ t obj, r.state.objects[o.index]? = some obj ∧
        l = .instanceField ⟨t, obj.site⟩ f) set := by
  refine exists_merge_withBase lawful grounded o (fun base => .instanceField base f)
    (fun p x mem => ?_) fun p base => ?_
  · exact grounded.exists_base_of_instanceField (ElementStore.mem_ofField.1 mem)
  · simp only [ElementStore.mem_ofField, SolverState.locationAt?_eq_some_iff,
      SolverState.location?_eq_some_instanceField_iff]
    constructor
    · rintro ⟨k, known, x, rfl, object⟩
      exact ⟨x, known, object⟩
    · rintro ⟨x, known, object⟩
      exact ⟨_, known, x, rfl, object⟩

theorem exists_arrayPointsTo (o : ObjId) :
    ∃ set, r.arrayPointsTo o = .ok set ∧
      r.state.Collects (fun l => ∃ t obj, r.state.objects[o.index]? = some obj ∧
        l = .arrayIndex ⟨t, obj.site⟩) set := by
  refine exists_merge_withBase lawful grounded o .arrayIndex
    (fun p x mem => ?_) fun p base => ?_
  · exact grounded.exists_base_of_arrayIndex (ElementStore.mem_arrayPointers.1 mem)
  · simp only [ElementStore.mem_arrayPointers, SolverState.locationAt?_eq_some_iff,
      SolverState.location?_eq_some_arrayIndex_iff]
    constructor
    · rintro ⟨k, known, x, rfl, object⟩
      exact ⟨x, known, object⟩
    · rintro ⟨x, known, object⟩
      exact ⟨_, known, x, rfl, object⟩

end Grounded

end Result

end PointsTo
