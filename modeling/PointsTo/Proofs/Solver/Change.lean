import Mathlib.Logic.Relation
import PointsTo.Proofs.IdSet
import PointsTo.Proofs.Solver.Operations

/-!
# Changes of state

Every operation of the analysis is a sequence of single changes: an element is asked for, an edge is
added, objects are scheduled or delivered. An invariant has to be proved for the single changes only,
and holds after every operation, whether it succeeds or reports a failure.

The changes also pay for the worklist. Each pending propagation that an operation schedules is
covered by an increase of the flow graph, of the reachable methods or of the points-to sets, up to a
number of propagations that the caller of the operation covers.
-/

namespace PointsTo

variable {P : Problem}

/-! ## Single changes -/

/-- What operations are made of. -/
inductive Change : SolverState P → SolverState P → Prop where
  | pointer (s : SolverState P) (k : PointerKey) :
      Change s { s with elements := (s.elements.pointer k).2 }
  | csObj (s : SolverState P) (o : CsObj) : Change s { s with elements := (s.elements.csObj o).2 }
  | csMethod (s : SolverState P) (m : CsMethod) :
      Change s { s with elements := (s.elements.csMethod m).2 }
  | csCallSite (s : SolverState P) (i : CsCallSite) :
      Change s { s with elements := (s.elements.csCallSite i).2 }
  | contexts (s : SolverState P) (t : ContextTable) : Change s { s with contexts := t }
  | heap (s : SolverState P) (h : P.heapModel.State) : Change s { s with heap := h }
  | schedule (s : SolverState P) (e : Pending) :
      Change s { s with worklist := s.worklist.add e }
  /-- A new flow edge comes with the objects of its source. -/
  | flow {s : SolverState P} {e : FlowEdge} {objects : ObjectSet} (new : s.flow.hasEdge e = false)
      (found : s.elements.pointsToSet e.source = .ok objects) :
      Change s { s with
        flow := (s.flow.addEdge e).2
        worklist := if objects.isEmpty then s.worklist else s.worklist.add ⟨e.target, objects⟩ }
  | callEdge (s : SolverState P) (e : CallEdge .csCallSite .csMethod) :
      Change s { s with callGraph := (s.callGraph.addEdge e).2 }
  | reachable {s : SolverState P} {m : CsMethodId} (sites : List CsCallSiteId)
      (new : s.callGraph.isReachable m = false) :
      Change s { s with callGraph := (s.callGraph.addReachable m sites).2 }
  | entry (s : SolverState P) (m : CsMethodId) :
      Change s { s with callGraph := s.callGraph.addEntry m }
  | propagate {s : SolverState P} {p : PointerId} {known : ObjectSet} (objects : ObjectSet)
      (found : s.elements.pointsToSet p = .ok known) : Change s (s.propagated p known objects)
  /-- The head of the worklist is taken off and delivered in one change, so that no object is lost
  between. -/
  | deliver {s : SolverState P} {e : Pending} {rest : Worklist} {known : ObjectSet}
      (head : s.worklist.poll = some (e, rest))
      (found : s.elements.pointsToSet e.target = .ok known) : Change s (s.delivered e rest known)
  | unresolved (s : SolverState P) :
      Change s { s with stats.unresolvedCalls := s.stats.unresolvedCalls + 1 }
  | initialized (s : SolverState P) : Change s { s with initialized := true }
  | recorded (s : SolverState P) : Change s s.recorded

/-- A sequence of changes. -/
abbrev Changes : SolverState P → SolverState P → Prop :=
  Relation.ReflTransGen Change

theorem Changes.invariant {inv : SolverState P → Prop}
    (step : ∀ s s', Change s s' → inv s → inv s') {s s' : SolverState P} (changes : Changes s s')
    (holds : inv s) : inv s' := by
  induction changes with
  | refl => exact holds
  | tail _ change ih => exact step _ _ change ih

end PointsTo
