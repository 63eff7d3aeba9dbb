import PointsTo.Proofs.Inclusion.Abstraction
import PointsTo.Proofs.Result.Image

/-!
# Containment of results

The result of one analysis is contained in that of another if each of its answers is, with objects
identified by their allocations. An abstraction of contexts carries everything that the finer
analysis says over to the coarser one, so the result of the finer analysis is contained in that of
the coarser one.
-/

namespace PointsTo

open Inclusion

variable {P Q : Problem} {F G : Policy}

namespace Result

/-! ## Containment -/

/-- Two objects come from one allocation. -/
def SameAllocation (r : Result P) (r' : Result Q) (o o' : ObjId) : Prop :=
  ∃ obj obj', r.objects[o.index]? = some obj ∧ r'.objects[o'.index]? = some obj' ∧
    obj.site = obj'.site

/-- Every object of the first set has one of the same allocation in the second. -/
def Covers (r : Result P) (r' : Result Q) (set set' : IdSet .object) : Prop :=
  ∀ o ∈ set, ∃ o' ∈ set', r.SameAllocation r' o o'

/-- Two questions are answered, and the second answer covers the first. -/
def Contained (r : Result P) (r' : Result Q) (answer answer' : Except OutOfRange (IdSet .object)) :
    Prop :=
  ∃ set set', answer = .ok set ∧ answer' = .ok set' ∧ r.Covers r' set set'

/-- All answers of the first result are contained in those of the second. -/
structure Within (r : Result P) (r' : Result Q) : Prop where
  objects (o : ObjId) : o.index < r.objects.size → ∃ o', r.SameAllocation r' o o'
  pointsTo (v : VarId) : r.Contained r' (r.pointsTo v) (r'.pointsTo v)
  staticField (f : FieldId) :
    r.Contained r' (r.staticFieldPointsTo f) (r'.staticFieldPointsTo f)
  instanceField {o o' : ObjId} (f : FieldId) : r.SameAllocation r' o o' →
    r.Contained r' (r.instanceFieldPointsTo o f) (r'.instanceFieldPointsTo o' f)
  array {o o' : ObjId} : r.SameAllocation r' o o' →
    r.Contained r' (r.arrayPointsTo o) (r'.arrayPointsTo o')
  mayAlias (v w : VarId) : ∃ shared shared', r.mayAlias v w = .ok shared ∧
    r'.mayAlias v w = .ok shared' ∧ (shared = true → shared' = true)
  reachableMethods (m : MethodId) : m ∈ r.reachableMethods → m ∈ r'.reachableMethods
  callEdges (e : CallEdge .invoke .method) :
    e ∈ r.callGraph.edges.toList → e ∈ r'.callGraph.edges.toList

/-! ## Results under an abstraction -/

section Abstraction

variable {r : Result P} {r' : Result Q}

/-- If the answers about two variables are covered, so is the answer whether they share an object. -/
theorem mayAlias_of_contained (distinct : r'.state.DistinctSites) {v w : VarId}
    (first : r.Contained r' (r.pointsTo v) (r'.pointsTo v))
    (second : r.Contained r' (r.pointsTo w) (r'.pointsTo w)) :
    ∃ shared shared', r.mayAlias v w = .ok shared ∧ r'.mayAlias v w = .ok shared' ∧
      (shared = true → shared' = true) := by
  obtain ⟨setV, setV', givenV, givenV', coversV⟩ := first
  obtain ⟨setW, setW', givenW, givenW', coversW⟩ := second
  refine ⟨setV.intersects setW, setV'.intersects setW', ?_, ?_, fun shared => ?_⟩
  · simp only [mayAlias, givenV, givenW, bind, Except.bind]
    rfl
  · simp only [mayAlias, givenV', givenW', bind, Except.bind]
    rfl
  · obtain ⟨o, memV, memW⟩ := IdSet.intersects_iff.1 shared
    obtain ⟨o₁, mem₁, obj, obj₁, found, found₁, same₁⟩ := coversV o memV
    obtain ⟨o₂, mem₂, obj', obj₂, found', found₂, same₂⟩ := coversW o memW
    rw [found] at found'
    obtain rfl := Option.some.inj found'
    have index : o₁ = o₂ :=
      Id.ext_index (distinct _ _ _ _ found₁ found₂ (same₁.symm.trans same₂))
    exact IdSet.intersects_iff.2 ⟨o₁, mem₁, index ▸ mem₂⟩

variable (A : Abstraction P.hierarchy F G) (lawful : P.Lawful F) (lawful' : Q.Lawful G)
  (complete : r.Complete F) (complete' : r'.Complete G) (same : Q.hierarchy = P.hierarchy)
include A lawful lawful' complete complete' same

/-- The result of the finer analysis is contained in that of the coarser one. -/
theorem within_of_abstraction : r.Within r' := by
  have image := image_of_simulation (A.simulation same) lawful lawful' complete complete'
  have distinct := complete'.finished.grounded.distinctSites lawful'
  exact ⟨image.objects, image.pointsTo, image.staticField, image.instanceField, image.array,
    fun v w => mayAlias_of_contained distinct (image.pointsTo v) (image.pointsTo w),
    image.reachableMethods, image.callEdges⟩

end Abstraction

end Result

end PointsTo
