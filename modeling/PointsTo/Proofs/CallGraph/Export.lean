import Mathlib.Data.List.Forall2
import PointsTo.CallGraph.Export
import PointsTo.Proofs.CallGraph.Additions

/-!
# Edges of exported call graphs

An export has a node for each reachable method and an edge for each call whose caller is known and
whose callee is reachable. Other calls are left out without a word, so a graph is exported as a whole
if it has no such calls.
-/

namespace PointsTo

/-- The values that a list is mapped to, each against what it comes from. -/
theorem forall₂_filterMap {α β : Type} (f : α → Option β) (l : List α) :
    List.Forall₂ (fun a b => f a = some b) (l.filter fun a => (f a).isSome) (l.filterMap f) := by
  induction l with
  | nil => exact .nil
  | cons a l ih =>
    cases value : f a with
    | none => simpa [value] using ih
    | some b => simpa [value] using ih

namespace CallGraph

variable {s m : Entity} {g : CallGraph s m} {e : CallEdge s m} {edge : Nat × Nat × CallKind}

/-! ## Single calls -/

/-- The caller of a call is known, and its callee can run. -/
def isShown (g : CallGraph s m) (e : CallEdge s m) : Bool :=
  (g.containerOf e.site).isSome && g.isReachable e.callee

/-- An edge between positions in the list of reachable methods leads from the method that a call stands
in to the method that is called. -/
structure Joins (g : CallGraph s m) (e : CallEdge s m) (edge : Nat × Nat × CallKind) : Prop where
  caller : ∃ caller, g.containerOf e.site = some caller ∧
    g.reachable.toList[edge.1]? = some caller
  callee : g.reachable.toList[edge.2.1]? = some e.callee
  kind : edge.2.2 = e.kind

theorem find?_reachable_iff {method : Id m} {i : Nat} :
    g.reachable.find? method = some i ↔ g.reachable.toList[i]? = some method := by
  rw [Table.find?_eq_some_iff, Table.get?_eq_getElem?_toList]

theorem exportEdge?_eq_some_iff : g.exportEdge? e = some edge ↔ g.Joins e edge := by
  obtain ⟨i, j, kind⟩ := edge
  constructor
  · intro found
    obtain ⟨caller, container, rest⟩ := Option.bind_eq_some_iff.1 found
    obtain ⟨i', source, rest⟩ := Option.bind_eq_some_iff.1 rest
    obtain ⟨j', target, same⟩ := Option.bind_eq_some_iff.1 rest
    cases same
    exact ⟨⟨caller, container, find?_reachable_iff.1 source⟩, find?_reachable_iff.1 target, rfl⟩
  · intro joins
    obtain ⟨⟨caller, container, source⟩, target, kinds⟩ := joins
    have source' : g.reachable.find? caller = some i := find?_reachable_iff.2 source
    have target' : g.reachable.find? e.callee = some j := find?_reachable_iff.2 target
    have kinds' : kind = e.kind := kinds
    simp [exportEdge?, container, source', target', kinds']

/-- A call is exported exactly when its caller and its callee are reachable. -/
theorem isSome_exportEdge?_iff : (g.exportEdge? e).isSome = true ↔
    ∃ caller, g.containerOf e.site = some caller ∧ caller ∈ g.reachable.toList ∧
      e.callee ∈ g.reachable.toList := by
  rw [Option.isSome_iff_exists]
  simp only [exportEdge?_eq_some_iff, List.mem_iff_getElem?]
  constructor
  · intro found
    obtain ⟨edge, ⟨caller, container, source⟩, target, -⟩ := found
    exact ⟨caller, container, ⟨_, source⟩, _, target⟩
  · intro found
    obtain ⟨caller, container, ⟨i, source⟩, j, target⟩ := found
    exact ⟨(i, j, e.kind), ⟨caller, container, source⟩, target, rfl⟩

theorem Located.isSome_exportEdge? (located : g.Located) :
    (g.exportEdge? e).isSome = g.isShown e := by
  rw [Bool.eq_iff_iff, isSome_exportEdge?_iff, isShown, Bool.and_eq_true, isReachable_iff,
    Option.isSome_iff_exists]
  constructor
  · intro found
    obtain ⟨caller, container, -, callee⟩ := found
    exact ⟨⟨caller, container⟩, callee⟩
  · intro shown
    obtain ⟨⟨caller, container⟩, callee⟩ := shown
    exact ⟨caller, container, (located.listed container).1, callee⟩

/-! ## Whole graphs -/

/-- An export draws a graph with some of its edges: it has one node for each reachable method, in their
order and with their labels, and one edge for each of the given edges, in their order. -/
structure Draws {ε : Type} (g : CallGraph s m) (label : Id m → Except ε String)
    (shown : List (CallEdge s m)) (out : LabelledGraph) : Prop where
  nodes : g.reachable.toList.map label = out.nodes.toList.map .ok
  methodsOnce : g.reachable.toList.Nodup
  edges : List.Forall₂ g.Joins shown out.edges.toList
  edgesOnce : shown.Nodup

/-- Whatever the labels, as long as each reachable method has one, the export of a graph draws it with
some of its edges. -/
def IsDrawn (g : CallGraph s m) (shown : List (CallEdge s m)) : Prop :=
  ∀ (ε : Type) (label : Id m → Except ε String),
    (∀ x ∈ g.reachable.toList, ∃ name, label x = .ok name) →
      ∃ out, g.toLabelled label = .ok out ∧ g.Draws label shown out

theorem isDrawn_filter (g : CallGraph s m) :
    g.IsDrawn (g.edges.toList.filter fun e => (g.exportEdge? e).isSome) := by
  intro ε label named
  obtain ⟨names, found⟩ := exists_mapM_eq_ok named
  refine ⟨⟨names.toArray, (g.edges.toList.filterMap g.exportEdge?).toArray⟩, ?_, ?_⟩
  · simp only [toLabelled, found, bind, Except.bind]
    rfl
  · refine ⟨mapM_eq_ok_iff.1 found, g.reachable.nodup_toList, ?_, g.edges.nodup_toList.filter _⟩
    exact (forall₂_filterMap g.exportEdge? g.edges.toList).imp
      fun _ _ => exportEdge?_eq_some_iff.1

/-- A graph that additions have made is drawn with the calls whose caller is known and whose callee is
reachable. -/
theorem isDrawn_ofAdditions (additions : List (Addition s m)) : (ofAdditions additions).IsDrawn
    ((ofAdditions additions).edges.toList.filter (ofAdditions additions).isShown) := by
  have drawn := (ofAdditions additions).isDrawn_filter
  have located := located_ofAdditions additions
  simpa only [located.isSome_exportEdge?] using drawn

/-- A graph in which every call leads from a reachable method to another is drawn with all its edges. -/
theorem isDrawn_of_reachable (ends : ∀ e ∈ g.edges.toList, ∃ caller,
    g.containerOf e.site = some caller ∧ caller ∈ g.reachable.toList ∧
      e.callee ∈ g.reachable.toList) : g.IsDrawn g.edges.toList := by
  have drawn := g.isDrawn_filter
  have all : (g.edges.toList.filter fun e => (g.exportEdge? e).isSome) = g.edges.toList := by
    apply List.filter_eq_self.2
    intro e listed
    exact isSome_exportEdge?_iff.2 (ends e listed)
  rwa [all] at drawn

/-- A call from a site that no method has been given is left out. -/
example : ((ofAdditions [.reachable ⟨0⟩ [⟨1⟩, ⟨2⟩], .reachable ⟨1⟩ [],
    .edge ⟨.virtual, ⟨1⟩, ⟨1⟩⟩, .edge ⟨.static, ⟨9⟩, ⟨1⟩⟩] : CallGraph .invoke .method).toLabelled
      (fun x => .ok x.text) : Except OutOfRange _) =
    .ok ⟨#["method#0", "method#1"], #[(0, 1, .virtual)]⟩ := by
  decide +kernel

end CallGraph

end PointsTo
