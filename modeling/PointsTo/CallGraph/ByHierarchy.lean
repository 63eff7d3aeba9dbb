import PointsTo.CallGraph.Basic
import PointsTo.Hierarchy.Dispatch

/-!
# Call graphs from the class hierarchy

A call graph that looks at declared types alone. A virtual call may reach whatever dispatch finds on
the named class or on any class below it, allocated or not.
-/

namespace PointsTo

/-- Call graphs over the call sites and methods of a program. -/
abbrev MethodCallGraph := CallGraph .invoke .method

namespace Hierarchy

/-- What dispatch finds for a subsignature on some classes. -/
def dispatchAll (h : Hierarchy) (s : Subsignature) (classes : List ClassId) :
    Except OutOfRange (List MethodId) :=
  return distinct (← classes.mapM (h.dispatch · s)).reduceOption

/-- The methods that a call site may reach. -/
def targets (h : Hierarchy) (i : InvokeId) : Except OutOfRange (List MethodId) := do
  let call ← h.program.invokeAt i
  match call.kind with
  | .static => return (← h.resolveStatic call.target).toList
  | .special => return (← h.resolveSpecial call.target).toList
  | .virtual | .interface => do
    h.dispatchAll call.target.subsignature (← h.subtypes call.target.owner)

/-- The methods that the calls of a method may reach. -/
def successors (h : Hierarchy) (m : MethodId) : Except OutOfRange (List MethodId) :=
  return (← (← h.program.invokesIn m).mapM h.targets).flatten

/-- Adds the edges of one call site. -/
def addCallEdges (h : Hierarchy) (g : MethodCallGraph) (i : InvokeId) :
    Except OutOfRange MethodCallGraph := do
  let kind := (← h.program.invokeAt i).kind
  return (← h.targets i).foldl (fun g callee => (g.addEdge ⟨kind, i, callee⟩).2) g

/-- Adds a method and the edges of its call sites. -/
def addCaller (h : Hierarchy) (g : MethodCallGraph) (m : MethodId) :
    Except OutOfRange MethodCallGraph := do
  let sites ← h.program.invokesIn m
  sites.foldlM h.addCallEdges (g.addReachable m sites).2

/-- The call graph of everything that can be reached from some entries, breadth first. -/
def callGraphFrom (h : Hierarchy) (entries : List MethodId) : Except OutOfRange MethodCallGraph :=
  do
  let reachable ← closure h.successors h.program.methods.size entries
  reachable.toList.foldlM h.addCaller (entries.foldl CallGraph.addEntry .empty)

/-- The call graph from the entries of the program. -/
def callGraph (h : Hierarchy) : Except OutOfRange MethodCallGraph :=
  h.callGraphFrom h.program.entries

end Hierarchy

end PointsTo
