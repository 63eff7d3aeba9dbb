import PointsTo.Proofs.Result.Queries
import PointsTo.Proofs.Inclusion.Simulation
import PointsTo.Proofs.Solver.Outcome

/-!
# Images of results

A simulation carries everything that one analysis says over to another. So the answers of the first
have their images in the answers of the second, with objects identified by the map of allocations.
-/

namespace PointsTo

open Inclusion

variable {P Q : Problem} {F G : Policy}

/-! ## Results of complete runs -/

namespace Result

/-- A result stands at the end of a run, and its call graph has the methods that can run and the
calls that can be made. -/
structure Complete (q : Policy) (r : Result P) : Prop where
  finished : r.state.Finished q
  methods (m : MethodId) :
    m ∈ r.reachableMethods ↔ ∃ t, r.state.Holds (.reachable ⟨t, m⟩)
  calls (e : CallEdge .invoke .method) : e ∈ r.callGraph.edges.toList ↔
    ∃ t t', r.state.Holds (.calls e.kind ⟨t, e.site⟩ ⟨t', e.callee⟩)

end Result

namespace Problem

variable (regular : P.Regular F)
include regular

/-- The end of a run gives a result. -/
theorem exists_analyze (collectStats : Bool) {s : SolverState P}
    (run : Solve.solve (.initial P) = .ok () s) :
    ∃ r, P.analyze collectStats = .ok r ∧ r.Complete F := by
  have finished := finished_of_solve regular run
  obtain ⟨g, merged, methods, calls⟩ := finished.grounded.exists_mergedCallGraph
  refine ⟨⟨s, g, if collectStats then some s.stats else none⟩, ?_, finished, methods, calls⟩
  have whole : Solve.solve.run (.initial P) = .ok () s := run
  simp only [analyze, whole, Result.ofState, merged, bind, Except.bind]
  rfl

theorem complete_of_analyze {collectStats : Bool} {r : Result P}
    (done : P.analyze collectStats = .ok r) : r.Complete F := by
  cases run : Solve.solve.run (.initial P) with
  | error e s =>
    simp only [analyze, run] at done
    cases done
  | ok a s =>
    obtain ⟨r', done', complete⟩ := exists_analyze regular collectStats run
    rw [done] at done'
    obtain rfl := Except.ok.inj done'
    exact complete

/-- A result of an analysis shows that its least solution has no call that cannot be made. -/
theorem fit_of_analyze {collectStats : Bool} {r : Result P} (done : P.analyze collectStats = .ok r) :
    P.program.entries ≠ [] ∧ ¬BadCall P.hierarchy F := by
  have finished := (complete_of_analyze regular done).finished
  exact ⟨finished.entries, finished.not_badCall regular.toLawful⟩

/-- The program and the policy on contexts settle whether there is a result. -/
theorem exists_analyze_iff (collectStats : Bool) : (∃ r, P.analyze collectStats = .ok r) ↔
    P.program.entries ≠ [] ∧ ¬BadCall P.hierarchy F := by
  constructor
  · rintro ⟨r, done⟩
    exact fit_of_analyze regular done
  · rintro ⟨entries, fit⟩
    obtain ⟨s, run⟩ := exists_solve_eq_ok regular entries fit
    obtain ⟨r, done, -⟩ := exists_analyze regular collectStats run
    exact ⟨r, done⟩

end Problem

namespace Result

/-! ## Answers and their images -/

/-- The allocation of the second object is the image of that of the first. -/
def Matched (f : AllocSite → AllocSite) (r : Result P) (r' : Result Q) (o o' : ObjId) : Prop :=
  ∃ obj obj', r.objects[o.index]? = some obj ∧ r'.objects[o'.index]? = some obj' ∧
    f obj.site = obj'.site

/-- Two questions are answered, and every object of the first answer has an image in the second. -/
def Carried (f : AllocSite → AllocSite) (r : Result P) (r' : Result Q)
    (answer answer' : Except OutOfRange (IdSet .object)) : Prop :=
  ∃ set set', answer = .ok set ∧ answer' = .ok set' ∧ ∀ o ∈ set, ∃ o' ∈ set', r.Matched f r' o o'

/-- All answers of the first result have their images in those of the second. -/
structure Image (f : AllocSite → AllocSite) (r : Result P) (r' : Result Q) : Prop where
  objects (o : ObjId) : o.index < r.objects.size → ∃ o', r.Matched f r' o o'
  pointsTo (v : VarId) : r.Carried f r' (r.pointsTo v) (r'.pointsTo v)
  staticField (g : FieldId) :
    r.Carried f r' (r.staticFieldPointsTo g) (r'.staticFieldPointsTo g)
  instanceField {o o' : ObjId} (g : FieldId) : r.Matched f r' o o' →
    r.Carried f r' (r.instanceFieldPointsTo o g) (r'.instanceFieldPointsTo o' g)
  array {o o' : ObjId} : r.Matched f r' o o' →
    r.Carried f r' (r.arrayPointsTo o) (r'.arrayPointsTo o')
  reachableMethods (m : MethodId) : m ∈ r.reachableMethods → m ∈ r'.reachableMethods
  callEdges (e : CallEdge .invoke .method) :
    e ∈ r.callGraph.edges.toList → e ∈ r'.callGraph.edges.toList

/-! ## Results under a simulation -/

section Simulation

variable {r : Result P} {r' : Result Q} (S : Simulation P.hierarchy Q.hierarchy F G)

/-- Answers about places and about their images. -/
theorem carried_of_collects (carried : ∀ {f}, r.state.Holds f → r'.state.Holds (S.fact f))
    {answer answer' : Except OutOfRange (IdSet .object)} {places places' : Location → Prop}
    (answered : ∃ set, answer = .ok set ∧ r.state.Collects places set)
    (answered' : ∃ set, answer' = .ok set ∧ r'.state.Collects places' set)
    (image : ∀ l, places l → places' (S.location l)) : r.Carried S.onSite r' answer answer' := by
  obtain ⟨set, given, collects⟩ := answered
  obtain ⟨set', given', collects'⟩ := answered'
  refine ⟨set, set', given, given', fun o mem => ?_⟩
  obtain ⟨l, t, obj, asked, found, holds⟩ := (collects o).1 mem
  obtain ⟨p, x, place, object, contains⟩ := carried holds
  obtain ⟨cs, obj', -, found', -, site⟩ := SolverState.heapObj?_eq_some_iff.1 object
  have site : obj'.site = S.onSite obj.site := site
  refine ⟨cs.obj, (collects' cs.obj).2 ?_, obj, obj', found, found', site.symm⟩
  refine ⟨S.location l, S.onHeap t, obj', image l asked, found', p, x, place, ?_, contains⟩
  rw [site]
  exact object

/-- A place that belongs to an object has its image at every object of the matching allocation. -/
theorem location_base (place : HeapObj → Location)
    (image : ∀ base, S.location (place base) = place (S.heapObj base)) {o o' : ObjId}
    (same : r.Matched S.onSite r' o o') (l : Location)
    (asked : ∃ t obj, r.state.objects[o.index]? = some obj ∧ l = place ⟨t, obj.site⟩) :
    ∃ t obj, r'.state.objects[o'.index]? = some obj ∧ S.location l = place ⟨t, obj.site⟩ := by
  obtain ⟨b, b', based, based', site⟩ := same
  obtain ⟨t, obj, found, rfl⟩ := asked
  rw [show r.state.objects[o.index]? = some b from based] at found
  obtain rfl := Option.some.inj found
  refine ⟨S.onHeap t, b', based', ?_⟩
  rw [image, ← site]
  rfl

variable (lawful : P.Lawful F) (lawful' : Q.Lawful G) (complete : r.Complete F)
  (complete' : r'.Complete G)
include lawful lawful' complete complete'

omit lawful in
/-- What the first analysis says has an image in what the second one says. -/
theorem holds_fact {f : Fact} (holds : r.state.Holds f) : r'.state.Holds (S.fact f) :=
  complete'.finished.holds lawful' (S.derivable (complete.finished.grounded.derives holds))

/-- An object of the first analysis comes from a method whose image the second one runs. -/
theorem exists_matched {o : ObjId} (inside : o.index < r.objects.size) :
    ∃ o', r.Matched S.onSite r' o o' := by
  have grounded := complete.finished.grounded
  have found := Array.getElem?_eq_getElem inside
  obtain ⟨-, allocates⟩ := lawful.heap.allocated grounded.heap found
  -- the allocation is found again as what the assigned variable holds
  obtain ⟨t, reached⟩ := grounded.allocations _ (Array.mem_toList_iff.2 (Array.getElem_mem inside))
  obtain ⟨method, lhs, -, stands, -⟩ := Program.allocation?_eq_some_iff.1 allocates
  have holds := complete.finished.holds lawful (.one (.new stands) reached)
  obtain ⟨p, x, -, object, -⟩ := holds_fact S lawful' complete complete' holds
  obtain ⟨cs, obj', -, found', -, site⟩ := SolverState.heapObj?_eq_some_iff.1 object
  exact ⟨cs.obj, _, obj', found, found', site.symm⟩

/-- The second result has the image of the first. -/
theorem image_of_simulation : r.Image S.onSite r' := by
  have grounded := complete.finished.grounded
  have grounded' := complete'.finished.grounded
  have carried {f : Fact} (holds : r.state.Holds f) : r'.state.Holds (S.fact f) :=
    holds_fact S lawful' complete complete' holds
  refine ⟨fun o => exists_matched S lawful lawful' complete complete', fun v => ?_, fun g => ?_,
    fun {o o'} g base => ?_, fun {o o'} base => ?_, fun m mem => ?_, fun e mem => ?_⟩
  · refine carried_of_collects S carried (exists_pointsTo lawful grounded v)
      (exists_pointsTo lawful' grounded' v) ?_
    rintro l ⟨t, rfl⟩
    exact ⟨S.onTrail t, rfl⟩
  · refine carried_of_collects S carried (exists_staticFieldPointsTo lawful grounded g)
      (exists_staticFieldPointsTo lawful' grounded' g) ?_
    rintro l rfl
    rfl
  · exact carried_of_collects S carried (exists_instanceFieldPointsTo lawful grounded o g)
      (exists_instanceFieldPointsTo lawful' grounded' o' g)
      (location_base S (.instanceField · g) (fun _ => rfl) base)
  · exact carried_of_collects S carried (exists_arrayPointsTo lawful grounded o)
      (exists_arrayPointsTo lawful' grounded' o')
      (location_base S .arrayIndex (fun _ => rfl) base)
  · obtain ⟨t, holds⟩ := (complete.methods m).1 mem
    exact (complete'.methods m).2 ⟨S.onTrail t, carried holds⟩
  · obtain ⟨t, t', holds⟩ := (complete.calls e).1 mem
    exact (complete'.calls e).2 ⟨S.onTrail t, S.onTrail t', carried holds⟩

end Simulation

end Result

end PointsTo
