import Mathlib.Tactic.Tauto
import PointsTo.CallGraph.Basic
import PointsTo.Proofs.Except
import PointsTo.Proofs.Table

/-!
# Growth of call graphs

What the additions do to the lists of entries, methods and edges, and to the places of call sites.
-/

namespace PointsTo

namespace CallGraph

variable {s m : Entity} {g : CallGraph s m}

theorem isReachable_iff {method : Id m} :
    g.isReachable method = true ↔ method ∈ g.reachable.toList :=
  Table.contains_iff

/-- A method that is made reachable is listed behind the others. -/
theorem reachable_addReachable {method : Id m} (sites : List (Id s))
    (new : g.isReachable method = false) :
    (g.addReachable method sites).2.reachable = g.reachable.insert method := by
  have absent : ¬g.reachable.contains method = true := by
    rw [isReachable] at new
    simp [new]
  rw [addReachable, if_neg absent]

theorem mem_reachable_addReachable {method method' : Id m} {sites : List (Id s)} :
    method' ∈ (g.addReachable method sites).2.reachable.toList ↔
      method' ∈ g.reachable.toList ∨ method' = method := by
  by_cases known : g.reachable.contains method = true
  · rw [addReachable, if_pos known]
    constructor
    · exact Or.inl
    · rintro (old | rfl)
      · exact old
      · exact Table.contains_iff.1 known
  · rw [addReachable, if_neg known]
    exact Table.mem_toList_intern

theorem size_reachable_addReachable {method : Id m} (sites : List (Id s))
    (new : g.isReachable method = false) :
    (g.addReachable method sites).2.reachable.size = g.reachable.size + 1 := by
  have absent : method ∉ g.reachable.toList := by
    rw [← isReachable_iff, new]
    simp
  rw [reachable_addReachable sites new, ← Table.length_toList,
    Table.toList_insert_of_not_mem absent, List.length_append, Table.length_toList,
    List.length_singleton]

/-- A method that is made reachable gets its call sites; others keep theirs. -/
theorem sitesIn_addReachable {method : Id m} (sites : List (Id s))
    (new : g.isReachable method = false) (method' : Id m) :
    (g.addReachable method sites).2.sitesIn method' =
      if method = method' then sites else g.sitesIn method' := by
  have absent : ¬g.reachable.contains method = true := by
    rw [isReachable] at new
    simp [new]
  rw [addReachable, if_neg absent, sitesIn, Std.TreeMap.getD_insert]
  by_cases same : method = method'
  · simp [same]
  · simp [same, sitesIn]

theorem edges_addReachable (g : CallGraph s m) (method : Id m) (sites : List (Id s)) :
    (g.addReachable method sites).2.edges = g.edges := by
  unfold addReachable
  split <;> rfl

theorem entries_addReachable (g : CallGraph s m) (method : Id m) (sites : List (Id s)) :
    (g.addReachable method sites).2.entries = g.entries := by
  unfold addReachable
  split <;> rfl

theorem mem_edges_addEdge {e e' : CallEdge s m} :
    e' ∈ (g.addEdge e).2.edges.toList ↔ e' ∈ g.edges.toList ∨ e' = e := by
  by_cases known : g.edges.contains e = true
  · rw [addEdge, if_pos known]
    constructor
    · exact Or.inl
    · rintro (old | rfl)
      · exact old
      · exact Table.contains_iff.1 known
  · rw [addEdge, if_neg known]
    exact Table.mem_toList_intern

theorem prefix_edges_addEdge (g : CallGraph s m) (e : CallEdge s m) :
    g.edges.toList <+: (g.addEdge e).2.edges.toList := by
  by_cases known : g.edges.contains e = true
  · apply Table.prefix_of_eq
    rw [addEdge, if_pos known]
  · rw [addEdge, if_neg known]
    exact Table.prefix_intern g.edges e

theorem reachable_addEdge (g : CallGraph s m) (e : CallEdge s m) :
    (g.addEdge e).2.reachable = g.reachable := by
  unfold addEdge
  split <;> rfl

theorem sitesIn_addEdge (g : CallGraph s m) (e : CallEdge s m) (method : Id m) :
    (g.addEdge e).2.sitesIn method = g.sitesIn method := by
  unfold addEdge
  split <;> rfl

theorem entries_addEdge (g : CallGraph s m) (e : CallEdge s m) :
    (g.addEdge e).2.entries = g.entries := by
  unfold addEdge
  split <;> rfl

/-- An edge that is not new is in the graph. -/
theorem mem_edges_of_addEdge_eq_false {e : CallEdge s m} (h : (g.addEdge e).1 = false) :
    e ∈ g.edges.toList := by
  by_cases known : g.edges.contains e = true
  · exact Table.contains_iff.1 known
  · rw [addEdge, if_neg known] at h
    simp at h

/-- Edges of one kind from one site to the methods of a list. -/
theorem foldl_addEdge (kind : CallKind) (site : Id s) (l : List (Id m)) (g : CallGraph s m) :
    (l.foldl (fun g callee => (g.addEdge ⟨kind, site, callee⟩).2) g).reachable = g.reachable ∧
      ∀ e, e ∈ (l.foldl (fun g callee => (g.addEdge ⟨kind, site, callee⟩).2) g).edges.toList ↔
        e ∈ g.edges.toList ∨ e.kind = kind ∧ e.site = site ∧ e.callee ∈ l := by
  induction l generalizing g with
  | nil => simp
  | cons callee l ih =>
    obtain ⟨reachable, edges⟩ := ih (g.addEdge ⟨kind, site, callee⟩).2
    refine ⟨reachable.trans (reachable_addEdge g _), fun e => ?_⟩
    obtain ⟨kind', site', callee'⟩ := e
    rw [List.foldl_cons, edges, mem_edges_addEdge, CallEdge.mk.injEq, List.mem_cons, or_assoc]
    tauto

/-! ## Nodes -/

/-- Two graphs have the same entries and the same methods with the same call sites. -/
structure SameNodes (g g' : CallGraph s m) : Prop where
  entries : g'.entries = g.entries
  reachable : g'.reachable = g.reachable
  sites (method : Id m) : g'.sitesIn method = g.sitesIn method
  containers (site : Id s) : g'.containerOf site = g.containerOf site

theorem SameNodes.refl (g : CallGraph s m) : g.SameNodes g :=
  ⟨rfl, rfl, fun _ => rfl, fun _ => rfl⟩

theorem SameNodes.trans {g' g'' : CallGraph s m} (first : g.SameNodes g')
    (second : g'.SameNodes g'') : g.SameNodes g'' where
  entries := second.entries.trans first.entries
  reachable := second.reachable.trans first.reachable
  sites method := (second.sites method).trans (first.sites method)
  containers site := (second.containers site).trans (first.containers site)

theorem sameNodes_addEdge (g : CallGraph s m) (e : CallEdge s m) : g.SameNodes (g.addEdge e).2 := by
  unfold addEdge
  split <;> exact ⟨rfl, rfl, fun _ => rfl, fun _ => rfl⟩

theorem sameNodes_foldl_addEdge (kind : CallKind) (site : Id s) (l : List (Id m))
    (g : CallGraph s m) :
    g.SameNodes (l.foldl (fun g callee => (g.addEdge ⟨kind, site, callee⟩).2) g) := by
  induction l generalizing g with
  | nil => exact .refl g
  | cons callee l ih => exact (sameNodes_addEdge g _).trans (ih _)

/-! ## Containers of call sites -/

theorem getElem?_foldl_insert {κ β : Type} [Keyed κ] [DecidableEq κ] (l : List κ) (v : β)
    (map : Map κ β) (k : κ) :
    (l.foldl (·.insert · v) map)[k]? = if k ∈ l then some v else map[k]? := by
  induction l generalizing map with
  | nil => simp
  | cons k' l ih =>
    rw [List.foldl_cons, ih, Std.TreeMap.getElem?_insert]
    by_cases later : k ∈ l
    · simp [later]
    · by_cases same : k' = k
      · simp [same]
      · simp [later, same, Ne.symm same]

/-- A method that is made reachable becomes the container of its call sites. -/
theorem containerOf_addReachable {method : Id m} (sites : List (Id s))
    (new : g.isReachable method = false) (site : Id s) :
    (g.addReachable method sites).2.containerOf site =
      if site ∈ sites then some method else g.containerOf site := by
  have absent : ¬g.reachable.contains method = true := by
    rw [isReachable] at new
    simp [new]
  rw [addReachable, if_neg absent]
  exact getElem?_foldl_insert sites method g.containers site

/-- The container of a call site is a reachable method that has the site, and every site of a
reachable method has a container. -/
structure Located (g : CallGraph s m) : Prop where
  listed {site : Id s} {method : Id m} : g.containerOf site = some method →
    method ∈ g.reachable.toList ∧ site ∈ g.sitesIn method
  located {site : Id s} {method : Id m} : method ∈ g.reachable.toList → site ∈ g.sitesIn method →
    ∃ container, g.containerOf site = some container

theorem located_empty : (empty : CallGraph s m).Located where
  listed {site method} found := by
    rw [containerOf, empty] at found
    simp at found
  located {site method} listed _ := absurd listed List.not_mem_nil

theorem Located.addReachable (located : g.Located) {method : Id m} (sites : List (Id s))
    (new : g.isReachable method = false) : (g.addReachable method sites).2.Located := by
  have absent : method ∉ g.reachable.toList := by
    rw [← isReachable_iff, new]
    simp
  constructor
  · intro site container found
    rw [containerOf_addReachable sites new] at found
    rw [mem_reachable_addReachable, sitesIn_addReachable sites new]
    split at found
    · rename_i mem
      obtain rfl := Option.some.inj found
      exact ⟨Or.inr rfl, by rwa [if_pos rfl]⟩
    · obtain ⟨reached, mem⟩ := located.listed found
      have other : method ≠ container := by
        rintro rfl
        exact absent reached
      exact ⟨Or.inl reached, by rwa [if_neg other]⟩
  · intro site container reached mem
    rw [containerOf_addReachable sites new]
    rw [mem_reachable_addReachable] at reached
    rw [sitesIn_addReachable sites new] at mem
    by_cases own : site ∈ sites
    · exact ⟨method, if_pos own⟩
    · rw [if_neg own]
      split at mem
      · exact absurd mem own
      · rename_i other
        exact located.located (reached.resolve_right (Ne.symm other)) mem

theorem Located.addEdge (located : g.Located) (e : CallEdge s m) : (g.addEdge e).2.Located := by
  unfold CallGraph.addEdge
  split
  · exact located
  · exact ⟨located.listed, located.located⟩

theorem Located.of_sameNodes {g' : CallGraph s m} (located : g.Located) (same : g.SameNodes g') :
    g'.Located := by
  constructor
  · intro site method found
    rw [same.containers] at found
    rw [same.reachable, same.sites]
    exact located.listed found
  · intro site method reached mem
    rw [same.reachable] at reached
    rw [same.sites] at mem
    rw [same.containers]
    exact located.located reached mem

/-- What a graph has: a reachable method or an edge. -/
def Has (g : CallGraph s m) : Id m ⊕ CallEdge s m → Prop
  | .inl method => method ∈ g.reachable.toList
  | .inr e => e ∈ g.edges.toList

/-! ## Graphs without methods and edges -/

theorem foldl_addEntry (l : List (Id m)) (g : CallGraph s m) :
    (l.foldl addEntry g).reachable = g.reachable ∧ (l.foldl addEntry g).edges = g.edges := by
  induction l generalizing g with
  | nil => exact ⟨rfl, rfl⟩
  | cons method l ih => exact ih (g.addEntry method)

theorem reachable_empty (x : Id m) : x ∉ (empty : CallGraph s m).reachable.toList :=
  List.not_mem_nil

theorem edges_empty (e : CallEdge s m) : e ∉ (empty : CallGraph s m).edges.toList :=
  List.not_mem_nil

end CallGraph

end PointsTo
