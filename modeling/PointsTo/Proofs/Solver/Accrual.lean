import PointsTo.Proofs.CallGraph.Indexes
import PointsTo.Proofs.Heap
import PointsTo.Proofs.Solver.Justified
import PointsTo.Proofs.Solver.Reading
import PointsTo.Proofs.Solver.RunMoves

/-!
# Accrual

Nothing that a state says is taken back, and no identifier comes to stand for something else. Most of
it holds of any change. Contexts and objects stay for as long as contexts come from a selector that
answers by a policy and objects from allocations of the program, as they do in justified changes. The
indexes of the call graph keep their answers since methods without call sites have not been reached.
-/

namespace PointsTo

open Relation (ReflTransGen)

variable {P : Problem} {q : Policy} {hand : Prop}

namespace SolverState

variable {s s' s'' : SolverState P}

/-! ## Counters and the call graph -/

/-- A later state has all that an earlier one has, with the same identifiers, and has counted no
less. -/
structure Accrues (s s' : SolverState P) : Prop extends s.Grows s' where
  callGraph : s.callGraph.Grows s'.callGraph
  iterations : s.stats.iterations ≤ s'.stats.iterations
  propagations : s.stats.propagations ≤ s'.stats.propagations
  unresolvedCalls : s.stats.unresolvedCalls ≤ s'.stats.unresolvedCalls

theorem propagations_le_propagated (s : SolverState P) (p : PointerId) (known objects : ObjectSet) :
    s.stats.propagations ≤ (s.propagated p known objects).stats.propagations := by
  unfold propagated
  split
  · exact Nat.le_refl _
  · exact Nat.le_add_right _ _

theorem unresolvedCalls_propagated (s : SolverState P) (p : PointerId) (known objects : ObjectSet) :
    (s.propagated p known objects).stats.unresolvedCalls = s.stats.unresolvedCalls := by
  unfold propagated
  split <;> rfl

theorem callGraph_propagated (s : SolverState P) (p : PointerId) (known objects : ObjectSet) :
    (s.propagated p known objects).callGraph = s.callGraph := by
  unfold propagated
  split <;> rfl

theorem tallies_le_of_change (change : Change s s') :
    s.stats.propagations ≤ s'.stats.propagations ∧
      s.stats.unresolvedCalls ≤ s'.stats.unresolvedCalls := by
  cases change with
  | propagate objects found =>
    rw [unresolvedCalls_propagated]
    exact ⟨propagations_le_propagated s _ _ objects, Nat.le_refl _⟩
  | @deliver e rest known head found =>
    rw [delivered, unresolvedCalls_propagated]
    exact ⟨propagations_le_propagated (s.taken rest) _ _ e.objects, Nat.le_refl _⟩
  | unresolved => exact ⟨Nat.le_refl _, Nat.le_succ _⟩
  | _ => exact ⟨Nat.le_refl _, Nat.le_refl _⟩

theorem tallies_le_of_changes (changes : Changes s s') :
    s.stats.propagations ≤ s'.stats.propagations ∧
      s.stats.unresolvedCalls ≤ s'.stats.unresolvedCalls := by
  induction changes with
  | refl => exact ⟨Nat.le_refl _, Nat.le_refl _⟩
  | tail _ change ih =>
    obtain ⟨propagations, unresolvedCalls⟩ := tallies_le_of_change change
    exact ⟨ih.1.trans propagations, ih.2.trans unresolvedCalls⟩

/-- The indexes of the call graph stay right and go on giving their answers. -/
theorem callGraph_grows_of_change (change : Change s s') (indexed : s.callGraph.Indexed) :
    s'.callGraph.Indexed ∧ s.callGraph.Grows s'.callGraph := by
  cases change with
  | callEdge e => exact ⟨indexed.addEdge e, CallGraph.grows_addEdge s.callGraph e⟩
  | @reachable m sites new =>
    exact ⟨indexed.addReachable m sites, indexed.grows_addReachable m sites⟩
  | entry m => exact ⟨indexed.addEntry m, CallGraph.grows_addEntry s.callGraph m⟩
  | propagate objects found =>
    rw [callGraph_propagated]
    exact ⟨indexed, .refl _⟩
  | @deliver e rest known head found =>
    rw [delivered, callGraph_propagated]
    exact ⟨indexed, .refl _⟩
  | _ => exact ⟨indexed, .refl _⟩

theorem callGraph_grows_of_changes (changes : Changes s s') (indexed : s.callGraph.Indexed) :
    s'.callGraph.Indexed ∧ s.callGraph.Grows s'.callGraph := by
  induction changes with
  | refl => exact ⟨indexed, .refl _⟩
  | tail _ change ih =>
    obtain ⟨indexed', grows⟩ := callGraph_grows_of_change change ih.1
    exact ⟨indexed', ih.2.trans grows⟩

/-! ## Contexts and objects -/

section Steps

variable (answers : P.selector.Answers q) (perSite : P.heapModel.PerSite)
include answers perSite

theorem Begun.grows (heap : P.heapModel.Reached P.program s.heap) (begun : Begun hand s s') :
    P.heapModel.Reached P.program s'.heap ∧ s.Grows s' := by
  have kept := kept_of_changes begun.changes
  cases begun with
  | entry m => exact ⟨heap, kept, List.prefix_rfl, List.prefix_rfl⟩
  | justified step =>
    cases step with
    | quiet change contexts same =>
      rw [same]
      refine ⟨heap, kept, ?_, ?_⟩
      · simp only [contexts, List.prefix_rfl]
      · simp only [objects, same, List.prefix_rfl]
    | reach => exact ⟨heap, kept, List.prefix_rfl, List.prefix_rfl⟩
    | select offered chosen =>
      exact ⟨heap, kept, answers.grows offered chosen, List.prefix_rfl⟩
    | place _ _ allocates made _ chosen =>
      obtain ⟨o, h, obj, made', grows, -⟩ := perSite.objectOf heap allocates
      rw [made] at made'
      obtain ⟨rfl, rfl⟩ := Prod.mk.inj (Except.ok.inj made')
      exact ⟨.objectOf heap allocates made, kept, (answers.heap chosen).grows, grows⟩
    | call _ => exact ⟨heap, kept, List.prefix_rfl, List.prefix_rfl⟩

theorem grows_of_begun (heap : P.heapModel.Reached P.program s.heap)
    (steps : ReflTransGen (Begun hand) s s') :
    P.heapModel.Reached P.program s'.heap ∧ s.Grows s' := by
  induction steps with
  | refl => exact ⟨heap, .refl s⟩
  | tail _ step ih =>
    obtain ⟨heap', grows⟩ := step.grows answers perSite ih.1
    exact ⟨heap', ih.2.trans grows⟩

/-- Where one sequence of justified changes and entries leads, from where another one leads. -/
theorem accrues_of_begun (heap : P.heapModel.Reached P.program s.heap)
    (indexed : s.callGraph.Indexed) (steps : ReflTransGen (Begun hand) s s') : s.Accrues s' := by
  have changes := changes_of_begun steps
  obtain ⟨propagations, unresolvedCalls⟩ := tallies_le_of_changes changes
  exact ⟨(grows_of_begun answers perSite heap steps).2, (callGraph_grows_of_changes changes indexed).2,
    iterations_le_of_changes changes, propagations, unresolvedCalls⟩

end Steps

end SolverState

end PointsTo
