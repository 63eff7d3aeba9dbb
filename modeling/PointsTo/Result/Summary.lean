import PointsTo.Program.Json
import PointsTo.Result.Basic

/-!
# Summaries

The findings of an analysis without contexts, told in names, for people and for other programs.
-/

namespace PointsTo

/-- A call, by the names of the two methods. -/
structure CallSummary where
  caller : String
  /-- The position of the call in the body of the caller. -/
  position : Nat
  kind : CallKind
  callee : String
deriving DecidableEq, Repr

/-- What a variable may hold. -/
structure VarSummary where
  method : String
  var : String
  objects : List String
deriving DecidableEq, Repr

/-- The findings of an analysis. -/
structure Summary where
  /-- The short name of the context policy. -/
  selector : String
  reachableMethods : List String
  callEdges : List CallSummary
  pointsTo : List VarSummary
  /-- The number of abstract objects. -/
  objects : Nat
  /-- The number of objects under heap contexts. -/
  csObjects : Nat
  pointers : Nat
  flowEdges : Nat
  contexts : Nat
  stats : Option Stats
deriving DecidableEq, Repr

namespace Result

variable {P : Problem}

/-- A call edge in names. -/
def callSummary (e : CallEdge .invoke .method) : Except OutOfRange CallSummary := do
  let call ← P.program.invokeAt e.site
  return ⟨← P.program.methodName call.container, call.position, e.kind,
    ← P.program.methodName e.callee⟩

/-- What a variable may hold, in names. -/
def varSummary (r : Result P) (v : VarId) : Except OutOfRange VarSummary := do
  let var ← P.program.varAt v
  return ⟨← P.program.methodName var.method, var.name,
    ← (← r.pointsTo v).toList.mapM r.objectName⟩

/-- The summary of a result. -/
def summary (r : Result P) : Except OutOfRange Summary := do
  let elements := r.state.elements
  return ⟨P.selector.name, ← r.reachableMethods.mapM P.program.methodName,
    ← r.callGraph.edges.toList.mapM (callSummary (P := P)), ← r.vars.toList.mapM r.varSummary,
    r.objects.size, elements.objects.size, elements.pointers.size, r.state.flow.size,
    r.state.contexts.size, r.stats⟩

end Result

/-! ## JSON forms -/

instance : JsonForm CallSummary where
  toJson c := .object [("caller", toJson c.caller), ("stmt", .nat c.position),
    ("kind", toJson c.kind), ("callee", toJson c.callee)]
  ofJson? j := do
    let [caller, position, kind, callee] ← j.fields? ["caller", "stmt", "kind", "callee"] | none
    return ⟨← required caller, ← requiredWord position, ← required kind, ← required callee⟩

instance : JsonForm VarSummary where
  toJson v := .object [("method", toJson v.method), ("var", toJson v.var),
    ("objects", toJson v.objects)]
  ofJson? j := do
    let [method, var, objects] ← j.fields? ["method", "var", "objects"] | none
    return ⟨← required method, ← required var, ← required objects⟩

/-- Counters have a running time with them when they are stored. It is a number; it is not kept when
they are read, and not written. -/
instance : JsonForm Stats where
  toJson s := .object [("reachable_methods", .nat s.reachableMethods),
    ("call_edges", .nat s.callEdges), ("pfg_edges", .nat s.flowEdges),
    ("pointers", .nat s.pointers), ("cs_objects", .nat s.csObjects),
    ("contexts", .nat s.contexts), ("iterations", .nat s.iterations),
    ("propagations", .nat s.propagations), ("unresolved_calls", .nat s.unresolvedCalls)]
  ofJson? j := do
    let [reachableMethods, callEdges, flowEdges, pointers, csObjects, contexts, iterations,
      propagations, unresolvedCalls, duration] ← j.fields? ["reachable_methods", "call_edges",
        "pfg_edges", "pointers", "cs_objects", "contexts", "iterations", "propagations",
        "unresolved_calls", "duration_ms"] | none
    if !(← duration).isNumber then none
    return ⟨← requiredWord reachableMethods, ← requiredWord callEdges, ← requiredWord flowEdges,
      ← requiredWord pointers, ← requiredWord csObjects, ← requiredWord contexts,
      ← requiredWord iterations, ← requiredWord propagations, ← requiredWord unresolvedCalls⟩

/-- Counters that are not collected are left out. -/
instance : JsonForm Summary where
  toJson s := .object ([("selector", toJson s.selector),
    ("reachable_methods", toJson s.reachableMethods), ("call_edges", toJson s.callEdges),
    ("points_to", toJson s.pointsTo), ("objects", .nat s.objects),
    ("cs_objects", .nat s.csObjects), ("pointers", .nat s.pointers),
    ("pfg_edges", .nat s.flowEdges), ("contexts", .nat s.contexts)] ++
    (s.stats.map fun stats => ("stats", toJson stats)).toList)
  ofJson? j := do
    let [selector, reachableMethods, callEdges, pointsTo, objects, csObjects, pointers, flowEdges,
      contexts, stats] ← j.fields? ["selector", "reachable_methods", "call_edges", "points_to",
        "objects", "cs_objects", "pointers", "pfg_edges", "contexts", "stats"] | none
    return ⟨← required selector, ← required reachableMethods, ← required callEdges,
      ← required pointsTo, ← requiredWord objects, ← requiredWord csObjects,
      ← requiredWord pointers, ← requiredWord flowEdges, ← requiredWord contexts, ← optional stats⟩

end PointsTo
