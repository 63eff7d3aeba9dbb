import PointsTo.Proofs.Table
import PointsTo.Solver.FlowGraph

/-!
# Edges of flow graphs

The list of edges and the index of targets say the same, in every graph that additions lead to.
-/

namespace PointsTo

namespace FlowGraph

variable {g : FlowGraph} {e : FlowEdge}

theorem hasEdge_iff : g.hasEdge e = true ↔ e ∈ g.edges.toList :=
  Table.contains_iff

theorem hasEdge_eq_false_iff : g.hasEdge e = false ↔ e ∉ g.edges.toList := by
  rw [← hasEdge_iff, Bool.not_eq_true]

/-- The index of targets is in step with the list of edges. -/
structure Indexed (g : FlowGraph) : Prop where
  mem_targetsOf : ∀ p t, t ∈ g.targetsOf p ↔ ⟨p, t⟩ ∈ g.edges.toList
  length_targetsOf : ∀ p, (g.targetsOf p).length ≤ g.size

theorem indexed_empty : empty.Indexed := by
  constructor
  · intro p t
    simp [targetsOf, empty, Table.toList_empty]
  · intro p
    simp [targetsOf, empty]

theorem mem_edges_addEdge {e' : FlowEdge} :
    e' ∈ (g.addEdge e).2.edges.toList ↔ e' ∈ g.edges.toList ∨ e' = e := by
  by_cases known : g.hasEdge e = true
  · rw [addEdge, if_pos known]
    constructor
    · exact Or.inl
    · rintro (old | rfl)
      · exact old
      · exact hasEdge_iff.1 known
  · rw [addEdge, if_neg known]
    exact Table.mem_toList_intern

theorem prefix_addEdge (g : FlowGraph) (e : FlowEdge) :
    g.edges.toList <+: (g.addEdge e).2.edges.toList := by
  by_cases known : g.hasEdge e = true
  · apply Table.prefix_of_eq
    rw [addEdge, if_pos known]
  · rw [addEdge, if_neg known]
    exact Table.prefix_intern g.edges e

theorem targetsOf_addEdge (new : g.hasEdge e = false) (p : PointerId) :
    (g.addEdge e).2.targetsOf p =
      if e.source = p then g.targetsOf p ++ [e.target] else g.targetsOf p := by
  have added : (g.addEdge e).2.targets =
      g.targets.insert e.source (g.targetsOf e.source ++ [e.target]) := by
    rw [addEdge, if_neg (by simp [new])]
  rw [targetsOf, added, Std.TreeMap.getD_insert]
  by_cases same : e.source = p
  · simp [same]
  · simp [same, targetsOf]

theorem size_addEdge (new : g.hasEdge e = false) : (g.addEdge e).2.size = g.size + 1 := by
  have added : (g.addEdge e).2.edges.toList = g.edges.toList ++ [e] := by
    rw [addEdge, if_neg (by simp [new])]
    exact Table.toList_insert_of_not_mem (hasEdge_eq_false_iff.1 new)
  rw [size, ← Table.length_toList, added, List.length_append, Table.length_toList]
  rfl

theorem Indexed.addEdge (indexed : g.Indexed) (new : g.hasEdge e = false) :
    (g.addEdge e).2.Indexed := by
  constructor
  · intro p t
    obtain ⟨source, target⟩ := e
    rw [targetsOf_addEdge new, mem_edges_addEdge, ← indexed.mem_targetsOf]
    by_cases same : source = p
    · simp [same]
    · simp [same, Ne.symm same]
  · intro p
    rw [targetsOf_addEdge new, size_addEdge new]
    have before := indexed.length_targetsOf p
    split
    · rw [List.length_append, List.length_singleton]
      omega
    · omega

end FlowGraph

end PointsTo
