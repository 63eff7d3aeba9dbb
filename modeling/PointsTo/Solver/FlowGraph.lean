import PointsTo.Table

/-!
# Pointer flow graphs

An edge between two locations says that every object that reaches its source reaches its target.
Edges are never removed.
-/

namespace PointsTo

/-- An edge between two locations. -/
structure FlowEdge where
  source : PointerId
  target : PointerId
deriving DecidableEq, Repr

instance : Keyed FlowEdge where
  code e := [e.source.index, e.target.index]
  code_injective := by
    rintro ⟨⟨s⟩, ⟨t⟩⟩ ⟨⟨s'⟩, ⟨t'⟩⟩ same
    simp_all

/-- Edges in the order of their insertion, and the targets of each source. -/
structure FlowGraph where
  edges : Table FlowEdge
  targets : Map PointerId (List PointerId)

namespace FlowGraph

/-- The graph without edges. -/
def empty : FlowGraph := ⟨.empty, ∅⟩

/-- Whether the graph has an edge. -/
def hasEdge (g : FlowGraph) (e : FlowEdge) : Bool :=
  g.edges.contains e

/-- The targets of the edges out of a location, in the order of insertion. -/
def targetsOf (g : FlowGraph) (p : PointerId) : List PointerId :=
  g.targets.getD p []

/-- The number of edges. -/
def size (g : FlowGraph) : Nat :=
  g.edges.size

/-- Adds an edge, and says whether it is new. -/
def addEdge (g : FlowGraph) (e : FlowEdge) : Bool × FlowGraph :=
  if g.hasEdge e then (false, g)
  else
    (true, ⟨g.edges.insert e, g.targets.insert e.source (g.targetsOf e.source ++ [e.target])⟩)

end FlowGraph

end PointsTo
