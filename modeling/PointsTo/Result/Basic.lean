import PointsTo.CallGraph.ByHierarchy
import PointsTo.Solver.Run

/-!
# Results

The state at the end of an analysis, and questions to it. A question about a variable under a
context is answered with objects under heap contexts; a question about a variable alone merges all
contexts and drops heap contexts. The same merge turns the call graph under contexts into one over
the call sites and methods of the program.
-/

namespace PointsTo

/-- The call graph without contexts. -/
def SolverState.mergedCallGraph {P : Problem} (s : SolverState P) :
    Except OutOfRange MethodCallGraph :=
  s.callGraph.project (fun i => return (← s.elements.csCallSiteAt i).invoke)
    (fun m => return (← s.elements.csMethodAt m).method)

/-- What an analysis has found out. -/
structure Result (P : Problem) where
  state : SolverState P
  /-- The call graph without contexts. -/
  callGraph : MethodCallGraph
  /-- The counters, if they are wanted. -/
  stats : Option Stats

namespace Result

variable {P : Problem}

/-- The result that a state holds. -/
def ofState (s : SolverState P) (collectStats : Bool) : Except OutOfRange (Result P) :=
  return ⟨s, ← s.mergedCallGraph, if collectStats then some s.stats else none⟩

/-! ## Variables -/

/-- The contexts and variables with a points-to set, in the order of their discovery. -/
def csVars (r : Result P) : List (ContextId × VarId) :=
  r.state.elements.varPointers.map fun (_, c, v) => (c, v)

/-- The variables with a points-to set. -/
def vars (r : Result P) : IdSet .var :=
  IdSet.ofList (r.state.elements.varPointers.map fun (_, _, v) => v)

/-- The objects in the sets of some locations, without their heap contexts. -/
def merge (r : Result P) (ps : List PointerId) : Except OutOfRange (IdSet .object) := do
  let sets ← ps.mapM r.state.elements.pointsToSet
  let objects ← (sets.flatMap (·.toList)).mapM r.state.elements.csObjAt
  return IdSet.ofList (objects.map (·.obj))

/-- The objects that a variable may hold. -/
def pointsTo (r : Result P) (v : VarId) : Except OutOfRange (IdSet .object) :=
  r.merge (r.state.elements.varPointers.filterMap fun (p, _, w) => if w = v then some p else none)

/-- The objects, with their heap contexts, in the set of a location. A location that the analysis
has not met has none. -/
def csPointsToAt (r : Result P) (k : PointerKey) : Except OutOfRange (List CsObj) :=
  match r.state.elements.findPointer? k with
  | none => .ok []
  | some p => do (← r.state.elements.pointsToSet p).toList.mapM r.state.elements.csObjAt

/-- The objects that a variable may hold under a context. -/
def csPointsTo (r : Result P) (c : ContextId) (v : VarId) : Except OutOfRange (List CsObj) :=
  r.csPointsToAt (.var c v)

/-- The objects that a static field may hold. -/
def staticFieldPointsTo (r : Result P) (f : FieldId) : Except OutOfRange (IdSet .object) :=
  r.merge (r.state.elements.findPointer? (.staticField f)).toList

/-- The locations of a list whose base is an object under some heap context. -/
def withBase (r : Result P) (o : ObjId) (ps : List (PointerId × CsObjId)) :
    Except OutOfRange (List PointerId) := do
  let kept ← ps.filterM fun (_, base) => return (← r.state.elements.csObjAt base).obj = o
  return kept.map (·.1)

/-- The objects that a field of an object may hold. -/
def instanceFieldPointsTo (r : Result P) (o : ObjId) (f : FieldId) :
    Except OutOfRange (IdSet .object) := do
  let ofField := r.state.elements.instanceFieldPointers.filterMap fun (p, base, g) =>
    if g = f then some (p, base) else none
  r.merge (← r.withBase o ofField)

/-- The objects that a field of an object under a heap context may hold. -/
def csInstanceFieldPointsTo (r : Result P) (o : CsObjId) (f : FieldId) :
    Except OutOfRange (List CsObj) :=
  r.csPointsToAt (.instanceField o f)

/-- The objects that the elements of an array object may hold. -/
def arrayPointsTo (r : Result P) (o : ObjId) : Except OutOfRange (IdSet .object) := do
  r.merge (← r.withBase o r.state.elements.arrayPointers)

/-- Whether two variables may hold the same object. -/
def mayAlias (r : Result P) (v w : VarId) : Except OutOfRange Bool :=
  return (← r.pointsTo v).intersects (← r.pointsTo w)

/-! ## Objects and methods -/

/-- All abstract objects, by identifier. -/
def objects (r : Result P) : Array Obj :=
  P.heapModel.objects r.state.heap

/-- The object that an identifier names. -/
def objectAt (r : Result P) (o : ObjId) : Except OutOfRange Obj :=
  P.heapModel.objectAt r.state.heap o

/-- The methods that can run. -/
def reachableMethods (r : Result P) : List MethodId :=
  r.callGraph.reachable.toList

/-- The methods under contexts that a method under a context calls. -/
def csCalleesOf (r : Result P) (c : ContextId) (m : MethodId) : Except OutOfRange (List CsMethod) :=
  match r.state.elements.findCsMethod? ⟨c, m⟩ with
  | none => .ok []
  | some caller => (r.state.callGraph.calleesOfMethod caller).mapM r.state.elements.csMethodAt

/-- The name of a method with its context behind it. -/
def csMethodName (r : Result P) (m : CsMethodId) : Except OutOfRange String := do
  let m ← r.state.elements.csMethodAt m
  return (← P.program.methodName m.method) ++ (← r.state.contexts.text m.context)

/-- An object by the names of its type and its allocating method. -/
def objectName (r : Result P) (o : ObjId) : Except OutOfRange String := do
  let obj ← r.objectAt o
  return "new " ++ (← P.program.typeName obj.ty) ++ " @ " ++
    (← P.program.methodName obj.site.method) ++ "#" ++ toString obj.site.position

end Result

/-- Runs the analysis of a problem from its beginning to its end. -/
def Problem.analyze (P : Problem) (collectStats : Bool) : Except Stop (Result P) :=
  match Solve.solve.run (SolverState.initial P) with
  | .error e _ => .error e
  | .ok _ s => liftM (Result.ofState s collectStats)

end PointsTo
