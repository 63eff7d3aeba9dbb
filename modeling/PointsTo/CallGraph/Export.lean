import PointsTo.CallGraph.Basic

/-!
# Exported call graphs

A call graph as a labelled directed graph between methods, and that graph as text for Graphviz.
-/

namespace PointsTo

/-- A directed graph with labelled nodes and edges that join nodes by their positions. -/
structure LabelledGraph where
  nodes : Array String
  edges : Array (Nat × Nat × CallKind)
deriving DecidableEq, Repr

namespace CallGraph

variable {s m : Entity}

/-- The edge between nodes that a call makes. There is none if the caller is unknown or one of the
two methods is not reachable. -/
def exportEdge? (g : CallGraph s m) (e : CallEdge s m) : Option (Nat × Nat × CallKind) := do
  let caller ← g.containerOf e.site
  return (← g.reachable.find? caller, ← g.reachable.find? e.callee, e.kind)

/-- One node for each reachable method and one edge for each call between such methods. -/
def toLabelled {ε : Type} (g : CallGraph s m) (label : Id m → Except ε String) :
    Except ε LabelledGraph := do
  return ⟨(← g.reachable.toList.mapM label).toArray,
    (g.edges.toList.filterMap g.exportEdge?).toArray⟩

end CallGraph

/-- A character as it stands in a quoted label. -/
def escapeLabelChar : Char → List Char
  | '"' => ['\\', '"']
  | '\\' => ['\\', '\\']
  | '\n' => ['\\', 'l']
  | c => [c]

/-- A label as it stands between quotes. -/
def escapeLabel (label : String) : String :=
  String.ofList (label.toList.flatMap escapeLabelChar)

namespace LabelledGraph

/-- The attribute list that gives a label. -/
def labelAttribute (label : String) : String :=
  " [ label = \"" ++ escapeLabel label ++ "\" ]\n"

/-- The line of a node. -/
def nodeLine (label : String) (i : Nat) : String :=
  "    " ++ toString i ++ labelAttribute label

/-- The line of an edge. -/
def edgeLine : Nat × Nat × CallKind → String
  | (i, j, kind) => "    " ++ toString i ++ " -> " ++ toString j ++ labelAttribute kind.text

/-- The graph in the language of Graphviz: nodes, then edges, a line each. -/
def toDot (g : LabelledGraph) : String :=
  let nodes := g.nodes.toList.zipIdx.map fun (label, i) => nodeLine label i
  "digraph \x7b\n" ++ String.join nodes ++ String.join (g.edges.toList.map edgeLine) ++ "\x7d\n"

end LabelledGraph

end PointsTo
