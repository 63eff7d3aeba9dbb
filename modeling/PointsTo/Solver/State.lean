import PointsTo.CallGraph.Basic
import PointsTo.Context.Selector
import PointsTo.Element.Store
import PointsTo.Hierarchy.Dispatch
import PointsTo.Solver.FlowGraph
import PointsTo.Solver.Worklist

/-!
# The state of an analysis

A problem is a program with the policies on contexts and heap objects. The state holds everything
found out about it so far: tables of elements, points-to sets, the two graphs and the pending
propagations. An operation on the state may stop early; the state that it has reached by then stays.
-/

namespace PointsTo

/-- Call graphs over call sites and methods under contexts. -/
abbrev CsCallGraph := CallGraph .csCallSite .csMethod

/-- What is analysed, and how. -/
structure Problem where
  hierarchy : Hierarchy
  selector : Selector
  heapModel : HeapModel
  /-- A bound on the rounds of each loop; loops end by themselves long before it. -/
  limit : Nat

/-- The analysed program. -/
def Problem.program (P : Problem) : Program :=
  P.hierarchy.program

/-- What an analysis counts. The first six numbers are the sizes of its tables and graphs at the end
of the last complete run. -/
structure Stats where
  reachableMethods : Nat
  callEdges : Nat
  flowEdges : Nat
  pointers : Nat
  csObjects : Nat
  contexts : Nat
  /-- Pending propagations that have been processed. -/
  iterations : Nat
  /-- Objects that have been added to points-to sets. -/
  propagations : Nat
  /-- Calls for which no target was found, one for each receiver object. -/
  unresolvedCalls : Nat
deriving DecidableEq, Repr

/-- Nothing counted yet. -/
def Stats.zero : Stats := ⟨0, 0, 0, 0, 0, 0, 0, 0, 0⟩

/-- What an analysis has found out so far. -/
structure SolverState (P : Problem) where
  heap : P.heapModel.State
  contexts : ContextTable
  elements : ElementStore
  flow : FlowGraph
  callGraph : CsCallGraph
  worklist : Worklist
  stats : Stats
  /-- Whether the entries have been made reachable. -/
  initialized : Bool

/-- Nothing found out yet. -/
def SolverState.initial (P : Problem) : SolverState P :=
  ⟨P.heapModel.initial, .empty, .empty, .empty, .empty, .empty, .zero, false⟩

/-- Why an analysis reports failure. Methods are given by their names. -/
inductive AnalysisError where
  /-- There is nothing to start from. -/
  | noEntryMethod
  /-- A call on an object reaches a method that has no receiver variable. -/
  | missingReceiver (method : String)
  /-- A call has more or fewer arguments than the called method has parameters. -/
  | arityMismatch (callSite callee : String) (expected found : Nat)
deriving DecidableEq, Repr

/-- The whole message. -/
def AnalysisError.message : AnalysisError → String
  | .noEntryMethod => "Program has no entry method"
  | .missingReceiver method => "Instance method " ++ method ++ " has no `this` variable"
  | .arityMismatch callSite callee expected found =>
    "Arity mismatch at " ++ callSite ++ " calling " ++ callee ++ ": " ++ toString found ++
      " argument(s), " ++ toString expected ++ " parameter(s)"

/-- Why an operation stops early. -/
inductive Stop where
  | failed (e : AnalysisError)
  | outOfRange (r : OutOfRange)
  /-- A loop has reached its bound. -/
  | outOfRounds
deriving DecidableEq, Repr

instance : MonadLift (Except OutOfRange) (Except Stop) where
  monadLift
    | .ok a => .ok a
    | .error r => .error (.outOfRange r)

/-- Operations on the state of an analysis. -/
abbrev Solve (P : Problem) := EStateM Stop (SolverState P)

/-- Stops if a look-up fails. -/
def Solve.ofLookup {P : Problem} {α : Type} : Except OutOfRange α → Solve P α
  | .ok a => pure a
  | .error r => throw (.outOfRange r)

instance {P : Problem} : MonadLift (Except OutOfRange) (Solve P) where
  monadLift := Solve.ofLookup

namespace Solve

variable {P : Problem}

/-! ## Elements -/

/-- The identifier of a location, made if it is new. -/
def pointer (k : PointerKey) : Solve P PointerId :=
  modifyGet fun s =>
    let (p, elements) := s.elements.pointer k
    (p, { s with elements := elements })

/-- The identifier of an object under a heap context, made if it is new. -/
def csObj (c : ContextId) (o : ObjId) : Solve P CsObjId :=
  modifyGet fun s =>
    let (i, elements) := s.elements.csObj ⟨c, o⟩
    (i, { s with elements := elements })

/-- The identifier of a method under a context, made if it is new. -/
def csMethod (c : ContextId) (m : MethodId) : Solve P CsMethodId :=
  modifyGet fun s =>
    let (i, elements) := s.elements.csMethod ⟨c, m⟩
    (i, { s with elements := elements })

/-- The identifier of a call site under a context, made if it is new. -/
def csCallSite (c : ContextId) (i : InvokeId) : Solve P CsCallSiteId :=
  modifyGet fun s =>
    let (j, elements) := s.elements.csCallSite ⟨c, i⟩
    (j, { s with elements := elements })

/-- Picks a context. -/
def select (choose : ContextTable → Selection) : Solve P ContextId := do
  let (c, contexts) ← choose (← get).contexts
  modify fun s => { s with contexts := contexts }
  return c

/-- The object of an allocation, made if it is new. -/
def objectOf (site : AllocSite) (ty : Ty) : Solve P Obj := do
  let (o, heap) ← P.heapModel.objectOf P.program site ty (← get).heap
  modify fun s => { s with heap := heap }
  P.heapModel.objectAt heap o

/-! ## Graphs and counters -/

/-- Puts objects on the worklist for a location. -/
def schedule (target : PointerId) (objects : ObjectSet) : Solve P Unit :=
  modify fun s => { s with worklist := s.worklist.add ⟨target, objects⟩ }

/-- Adds an edge to the call graph, and says whether it is new. -/
def addCallEdge (e : CallEdge .csCallSite .csMethod) : Solve P Bool :=
  modifyGet fun s =>
    let (isNew, callGraph) := s.callGraph.addEdge e
    (isNew, { s with callGraph := callGraph })

/-- Counts a call without a target. -/
def countUnresolved : Solve P Unit :=
  modify fun s => { s with stats.unresolvedCalls := s.stats.unresolvedCalls + 1 }

end Solve

end PointsTo
