import PointsTo.Proofs.CallGraph
import PointsTo.Proofs.Program.WellFormed

/-!
# Indexes of call graphs

A call graph keeps the callees of each site and the callers of each method beside its edges. They say
what the edges say, only reachable methods have call sites, and no addition takes anything out.
-/

namespace PointsTo

/-! ## Lists under keys -/

section Keyed

variable {κ α : Type} [Keyed κ] [DecidableEq κ] [DecidableEq α] (lists : Map κ (List α)) (k : κ) (a : α)

/-- Under the key that a value is added to, the list has the value afterwards. -/
theorem getD_insert_addNew (k' : κ) :
    (lists.insert k (addNew (lists.getD k []) a)).getD k' [] =
      if k = k' then addNew (lists.getD k' []) a else lists.getD k' [] := by
  rw [Std.TreeMap.getD_insert]
  by_cases same : k = k'
  · subst same
    simp
  · simp [same]

theorem mem_getD_insert_addNew {k' : κ} {b : α} :
    b ∈ (lists.insert k (addNew (lists.getD k []) a)).getD k' [] ↔
      b ∈ lists.getD k' [] ∨ k = k' ∧ b = a := by
  rw [getD_insert_addNew]
  by_cases same : k = k'
  · simp [same, mem_addNew]
  · simp [same]

theorem prefix_getD_insert_addNew (k' : κ) :
    lists.getD k' [] <+: (lists.insert k (addNew (lists.getD k []) a)).getD k' [] := by
  rw [getD_insert_addNew]
  split
  · exact prefix_addNew _ a
  · exact List.prefix_rfl

end Keyed

namespace CallGraph

variable {s m : Entity} {g g' g'' : CallGraph s m}

theorem addReachable_of_isReachable {method : Id m} (sites : List (Id s))
    (known : g.isReachable method = true) : (g.addReachable method sites).2 = g := by
  rw [isReachable] at known
  rw [addReachable, if_pos known]

theorem addEdge_of_hasEdge {e : CallEdge s m} (known : g.hasEdge e = true) :
    (g.addEdge e).2 = g := by
  rw [hasEdge] at known
  rw [addEdge, if_pos known]

theorem addEdge_of_new {e : CallEdge s m} (new : g.hasEdge e = false) :
    (g.addEdge e).2 = { g with
      edges := g.edges.insert e
      callees := g.callees.insert e.site (addNew (g.callees.getD e.site []) e.callee)
      callers := g.callers.insert e.callee (addNew (g.callers.getD e.callee []) e.site) } := by
  have absent : ¬g.edges.contains e = true := by
    rw [hasEdge] at new
    simp [new]
  rw [addEdge, if_neg absent]

/-! ## Indexes -/

/-- The indexes say what the edges say, and the record of call sites what is reachable. -/
structure Indexed (g : CallGraph s m) : Prop where
  callees {site : Id s} {method : Id m} :
    method ∈ g.calleesOf site ↔ ∃ kind, ⟨kind, site, method⟩ ∈ g.edges.toList
  callers {site : Id s} {method : Id m} :
    site ∈ g.callersOf method ↔ ∃ kind, ⟨kind, site, method⟩ ∈ g.edges.toList
  sites {method : Id m} : method ∉ g.reachable.toList → g.sitesIn method = []

theorem indexed_empty : (empty : CallGraph s m).Indexed where
  callees := by simp [calleesOf, empty, Table.toList_empty]
  callers := by simp [callersOf, empty, Table.toList_empty]
  sites _ := by simp [sitesIn, empty]

theorem Indexed.addEntry (indexed : g.Indexed) (method : Id m) : (g.addEntry method).Indexed :=
  ⟨indexed.callees, indexed.callers, indexed.sites⟩

theorem calleesOf_addReachable (g : CallGraph s m) (method : Id m) (sites : List (Id s)) :
    (g.addReachable method sites).2.calleesOf = g.calleesOf := by
  unfold addReachable
  split <;> rfl

theorem callersOf_addReachable (g : CallGraph s m) (method : Id m) (sites : List (Id s)) :
    (g.addReachable method sites).2.callersOf = g.callersOf := by
  unfold addReachable
  split <;> rfl

theorem Indexed.addReachable (indexed : g.Indexed) (method : Id m) (sites : List (Id s)) :
    (g.addReachable method sites).2.Indexed := by
  cases known : g.isReachable method with
  | true =>
    rw [addReachable_of_isReachable sites known]
    exact indexed
  | false =>
    refine ⟨?_, ?_, fun {method'} absent => ?_⟩
    · rw [calleesOf_addReachable, edges_addReachable]
      exact indexed.callees
    · rw [callersOf_addReachable, edges_addReachable]
      exact indexed.callers
    · rw [mem_reachable_addReachable, not_or] at absent
      rw [sitesIn_addReachable sites known, if_neg (Ne.symm absent.2)]
      exact indexed.sites absent.1

theorem Indexed.addEdge (indexed : g.Indexed) (e : CallEdge s m) : (g.addEdge e).2.Indexed := by
  cases known : g.hasEdge e with
  | true =>
    rw [addEdge_of_hasEdge known]
    exact indexed
  | false =>
    -- an edge to a method from a site is an old one, or the new one
    have edge : ∀ site method, (∃ kind, ⟨kind, site, method⟩ ∈ (g.addEdge e).2.edges.toList) ↔
        (∃ kind, ⟨kind, site, method⟩ ∈ g.edges.toList) ∨ e.site = site ∧ e.callee = method := by
      intro site method
      simp only [mem_edges_addEdge, exists_or]
      obtain ⟨kind, site', method'⟩ := e
      simp [CallEdge.mk.injEq, eq_comm]
    refine ⟨fun {site method} => ?_, fun {site method} => ?_, fun {method} absent => ?_⟩
    · rw [edge, ← indexed.callees, addEdge_of_new known, eq_comm (a := e.callee)]
      exact mem_getD_insert_addNew g.callees e.site e.callee
    · rw [edge, ← indexed.callers, addEdge_of_new known, and_comm, eq_comm (a := e.site)]
      exact mem_getD_insert_addNew g.callers e.callee e.site
    · rw [reachable_addEdge] at absent
      rw [sitesIn_addEdge]
      exact indexed.sites absent

/-- The callees of a method are those of the edges out of its call sites. -/
theorem Indexed.mem_calleesOfMethod (indexed : g.Indexed) {method callee : Id m} :
    callee ∈ g.calleesOfMethod method ↔
      ∃ site ∈ g.sitesIn method, ∃ kind, ⟨kind, site, callee⟩ ∈ g.edges.toList := by
  rw [calleesOfMethod, mem_distinct, List.mem_flatMap]
  simp only [indexed.callees]

/-! ## Growth -/

/-- What a graph answers it goes on answering. -/
structure Grows (g g' : CallGraph s m) : Prop where
  sites (method : Id m) : g.sitesIn method <+: g'.sitesIn method
  callees (site : Id s) : g.calleesOf site <+: g'.calleesOf site
  callers (method : Id m) : g.callersOf method <+: g'.callersOf method

theorem Grows.refl (g : CallGraph s m) : g.Grows g :=
  ⟨fun _ => List.prefix_rfl, fun _ => List.prefix_rfl, fun _ => List.prefix_rfl⟩

theorem Grows.trans (first : g.Grows g') (second : g'.Grows g'') : g.Grows g'' where
  sites method := (first.sites method).trans (second.sites method)
  callees site := (first.callees site).trans (second.callees site)
  callers method := (first.callers method).trans (second.callers method)

theorem grows_addEntry (g : CallGraph s m) (method : Id m) : g.Grows (g.addEntry method) :=
  ⟨fun _ => List.prefix_rfl, fun _ => List.prefix_rfl, fun _ => List.prefix_rfl⟩

theorem Indexed.grows_addReachable (indexed : g.Indexed) (method : Id m) (sites : List (Id s)) :
    g.Grows (g.addReachable method sites).2 := by
  cases known : g.isReachable method with
  | true =>
    rw [addReachable_of_isReachable sites known]
    exact .refl g
  | false =>
    refine ⟨fun method' => ?_, fun site => ?_, fun method' => ?_⟩
    · rw [sitesIn_addReachable sites known]
      split
      · rename_i same
        subst same
        rw [← Bool.not_eq_true, isReachable_iff] at known
        rw [indexed.sites known]
        exact List.nil_prefix
      · exact List.prefix_rfl
    · simp only [calleesOf_addReachable, List.prefix_rfl]
    · simp only [callersOf_addReachable, List.prefix_rfl]

theorem grows_addEdge (g : CallGraph s m) (e : CallEdge s m) : g.Grows (g.addEdge e).2 := by
  cases known : g.hasEdge e with
  | true =>
    rw [addEdge_of_hasEdge known]
    exact .refl g
  | false =>
    refine ⟨fun method => ?_, fun site => ?_, fun method => ?_⟩
    · simp only [sitesIn_addEdge, List.prefix_rfl]
    · rw [addEdge_of_new known]
      exact prefix_getD_insert_addNew g.callees e.site e.callee site
    · rw [addEdge_of_new known]
      exact prefix_getD_insert_addNew g.callers e.callee e.site method

end CallGraph

end PointsTo
