import PointsTo.Proofs.CallGraph.Projection
import PointsTo.Proofs.FirstOccurrences

/-!
# Graphs made by additions

A call graph keeps its edges four times: as a list, as a table, and as the callees of sites and the
callers of methods. It keeps its methods with their call sites, and the sites with their methods. All
of this stays in step, whatever is added in whatever order: each look-up gives what the lists of
methods and edges say, in the order of those lists, and an addition is an addition only the first time.
-/

namespace PointsTo

namespace CallGraph

variable {s m : Entity} {g : CallGraph s m}

/-- The additions to a call graph. -/
inductive Addition (s m : Entity) where
  | entry (method : Id m)
  | reachable (method : Id m) (sites : List (Id s))
  | edge (e : CallEdge s m)

/-- The graph after an addition. -/
def add (g : CallGraph s m) : Addition s m → CallGraph s m
  | .entry method => g.addEntry method
  | .reachable method sites => (g.addReachable method sites).2
  | .edge e => (g.addEdge e).2

/-- The graph that additions make of the graph without nodes. -/
def ofAdditions (additions : List (Addition s m)) : CallGraph s m :=
  additions.foldl add empty

theorem ofAdditions_append_singleton (additions : List (Addition s m)) (a : Addition s m) :
    ofAdditions (additions ++ [a]) = (ofAdditions additions).add a := by
  rw [ofAdditions, List.foldl_append]
  rfl

/-- What holds of the graph without nodes and is kept by additions holds of what they make. -/
theorem ofAdditions_invariant {inv : CallGraph s m → Prop} (start : inv empty)
    (step : ∀ g a, inv g → inv (g.add a)) (additions : List (Addition s m)) :
    inv (ofAdditions additions) :=
  List.foldlRecOn additions _ start fun g holds a _ => step g a holds

theorem Indexed.add (indexed : g.Indexed) (a : Addition s m) : (g.add a).Indexed := by
  cases a with
  | entry method => exact indexed.addEntry method
  | reachable method sites => exact indexed.addReachable method sites
  | edge e => exact indexed.addEdge e

theorem indexed_ofAdditions (additions : List (Addition s m)) : (ofAdditions additions).Indexed :=
  ofAdditions_invariant indexed_empty (fun _ a indexed => indexed.add a) additions

theorem Located.add (located : g.Located) (a : Addition s m) : (g.add a).Located := by
  cases a with
  | entry method => exact ⟨located.listed, located.located⟩
  | reachable method sites =>
    cases known : g.isReachable method with
    | true =>
      rw [CallGraph.add, addReachable_of_isReachable sites known]
      exact located
    | false => exact located.addReachable sites known
  | edge e => exact located.addEdge e

theorem located_ofAdditions (additions : List (Addition s m)) : (ofAdditions additions).Located :=
  ofAdditions_invariant located_empty (fun _ a located => located.add a) additions

/-! ## Answers of additions -/

theorem addEntry_of_mem {method : Id m} (known : method ∈ g.entries.toList) :
    g.addEntry method = g := by
  obtain ⟨i, found⟩ := Table.mem_toList_iff.1 known
  rw [addEntry, Table.insert, Table.intern_of_find?_eq_some found]

theorem addReachable_eq_true_iff {method : Id m} {sites : List (Id s)} :
    (g.addReachable method sites).1 = true ↔ method ∉ g.reachable.toList := by
  rw [← isReachable_iff, isReachable, addReachable]
  split
  · rename_i known
    simp [known]
  · rename_i new
    simp [new]

theorem addEdge_eq_true_iff {e : CallEdge s m} :
    (g.addEdge e).1 = true ↔ e ∉ g.edges.toList := by
  rw [← Table.contains_iff, addEdge]
  split
  · rename_i known
    simp [known]
  · rename_i new
    simp [new]

/-- An addition says whether it is new. A new one is put behind the others of its kind, and one that is
not new changes nothing. -/
structure AddsOnce (g : CallGraph s m) : Prop where
  newEntry {method : Id m} : method ∉ g.entries.toList →
    (g.addEntry method).entries.toList = g.entries.toList ++ [method]
  oldEntry {method : Id m} : method ∈ g.entries.toList → g.addEntry method = g
  newMethod {method : Id m} (sites : List (Id s)) : method ∉ g.reachable.toList →
    (g.addReachable method sites).1 = true ∧
      (g.addReachable method sites).2.reachable.toList = g.reachable.toList ++ [method]
  oldMethod {method : Id m} (sites : List (Id s)) : method ∈ g.reachable.toList →
    g.addReachable method sites = (false, g)
  newEdge {e : CallEdge s m} : e ∉ g.edges.toList →
    (g.addEdge e).1 = true ∧ (g.addEdge e).2.edges.toList = g.edges.toList ++ [e]
  oldEdge {e : CallEdge s m} : e ∈ g.edges.toList → g.addEdge e = (false, g)

theorem addsOnce (g : CallGraph s m) : g.AddsOnce where
  newEntry new := Table.toList_insert_of_not_mem new
  oldEntry := addEntry_of_mem
  newMethod sites new := by
    refine ⟨addReachable_eq_true_iff.2 new, ?_⟩
    rw [toList_reachable_addReachable, addNew, if_neg new]
  oldMethod sites known := by
    apply Prod.ext
    · exact Bool.eq_false_iff.2 fun new => addReachable_eq_true_iff.1 new known
    · exact addReachable_of_isReachable sites (isReachable_iff.2 known)
  newEdge new := by
    refine ⟨addEdge_eq_true_iff.2 new, ?_⟩
    rw [toList_edges_addEdge, addNew, if_neg new]
  oldEdge known := by
    apply Prod.ext
    · exact Bool.eq_false_iff.2 fun new => addEdge_eq_true_iff.1 new known
    · exact addEdge_of_hasEdge (Table.contains_iff.2 known)

/-! ## Lists -/

namespace Addition

/-- The method that an addition makes an entry. -/
def entry? : Addition s m → Option (Id m)
  | .entry method => some method
  | _ => none

/-- The method that an addition makes reachable. -/
def method? : Addition s m → Option (Id m)
  | .reachable method _ => some method
  | _ => none

/-- The edge that is added. -/
def edge? : Addition s m → Option (CallEdge s m)
  | .edge e => some e
  | _ => none

/-- The call sites that an addition gives to a method. -/
def sitesOf? (method : Id m) : Addition s m → Option (List (Id s))
  | .reachable method' sites => if method' = method then some sites else none
  | _ => none

end Addition

/-- A list that takes in a value of each addition that has one, and is left alone by the others, has
the values at their first occurrences. -/
theorem toList_ofAdditions {α : Type} [DecidableEq α] (lists : CallGraph s m → List α)
    (value? : Addition s m → Option α) (start : lists empty = [])
    (step : ∀ g a, lists (g.add a) = (value? a).elim (lists g) (addNew (lists g)))
    (additions : List (Addition s m)) :
    lists (ofAdditions additions) = distinct (additions.filterMap value?) := by
  induction additions using List.reverseRecOn with
  | nil => exact start
  | append_singleton additions a ih =>
    rw [ofAdditions_append_singleton, step, ih, List.filterMap_append]
    cases value : value? a with
    | none => simp [value]
    | some b => simp [value, distinct_append_singleton]

/-- The lists of a graph have what was added, each at its first addition, and a method has the call
sites that it was given first. -/
structure Lists (additions : List (Addition s m)) (g : CallGraph s m) : Prop where
  entries : FirstsOf (additions.filterMap Addition.entry?) g.entries.toList
  reachable : FirstsOf (additions.filterMap Addition.method?) g.reachable.toList
  edges : FirstsOf (additions.filterMap Addition.edge?) g.edges.toList
  sites {method : Id m} : method ∈ g.reachable.toList →
    additions.findSome? (Addition.sitesOf? method) = some (g.sitesIn method)
  noSites {method : Id m} : method ∉ g.reachable.toList → g.sitesIn method = []

theorem entries_ofAdditions (additions : List (Addition s m)) :
    (ofAdditions additions).entries.toList = distinct (additions.filterMap Addition.entry?) := by
  apply toList_ofAdditions (fun g => g.entries.toList) Addition.entry? rfl
  intro g a
  cases a with
  | entry method => exact Table.toList_insert g.entries method
  | reachable method sites => exact congrArg Table.toList (entries_addReachable g method sites)
  | edge e => exact congrArg Table.toList (entries_addEdge g e)

theorem reachable_ofAdditions (additions : List (Addition s m)) :
    (ofAdditions additions).reachable.toList = distinct (additions.filterMap Addition.method?) := by
  apply toList_ofAdditions (fun g => g.reachable.toList) Addition.method? rfl
  intro g a
  cases a with
  | entry method => rfl
  | reachable method sites => exact toList_reachable_addReachable g method sites
  | edge e => exact congrArg Table.toList (reachable_addEdge g e)

theorem edges_ofAdditions (additions : List (Addition s m)) :
    (ofAdditions additions).edges.toList = distinct (additions.filterMap Addition.edge?) := by
  apply toList_ofAdditions (fun g => g.edges.toList) Addition.edge? rfl
  intro g a
  cases a with
  | entry method => rfl
  | reachable method sites => exact congrArg Table.toList (edges_addReachable g method sites)
  | edge e => exact toList_edges_addEdge g e

/-- The call sites of a method are those that it was given first. -/
theorem findSome?_sitesOf? (method : Id m) (additions : List (Addition s m)) :
    additions.findSome? (Addition.sitesOf? method) =
      if (ofAdditions additions).isReachable method then
        some ((ofAdditions additions).sitesIn method) else none := by
  induction additions using List.reverseRecOn with
  | nil => rfl
  | append_singleton additions a ih =>
    rw [List.findSome?_append, ih, ofAdditions_append_singleton]
    generalize ofAdditions additions = g
    cases a with
    | entry method' => exact Option.or_none
    | edge e =>
      have same : (g.add (.edge e)).isReachable method = g.isReachable method := by
        rw [isReachable, CallGraph.add, reachable_addEdge]
        rfl
      rw [same, CallGraph.add, sitesIn_addEdge]
      exact Option.or_none
    | reachable method' sites =>
      cases known : g.isReachable method' with
      | true =>
        rw [CallGraph.add, addReachable_of_isReachable sites known]
        by_cases own : method' = method
        · subst own
          simp [known]
        · simp [Addition.sitesOf?, own]
      | false =>
        rw [CallGraph.add, sitesIn_addReachable sites known]
        by_cases own : method' = method
        · subst own
          have now : (g.addReachable method' sites).2.isReachable method' = true :=
            isReachable_iff.2 (mem_reachable_addReachable.2 (Or.inr rfl))
          simp [Addition.sitesOf?, known, now]
        · have same : (g.addReachable method' sites).2.isReachable method = g.isReachable method := by
            rw [Bool.eq_iff_iff, isReachable_iff, isReachable_iff, mem_reachable_addReachable]
            exact or_iff_left (Ne.symm own)
          simp [Addition.sitesOf?, own, same]

theorem lists_ofAdditions (additions : List (Addition s m)) :
    Lists additions (ofAdditions additions) where
  entries := by
    rw [entries_ofAdditions]
    exact firstsOf_distinct _
  reachable := by
    rw [reachable_ofAdditions]
    exact firstsOf_distinct _
  edges := by
    rw [edges_ofAdditions]
    exact firstsOf_distinct _
  sites listed := by
    rw [findSome?_sitesOf?, if_pos (isReachable_iff.2 listed)]
  noSites absent := (indexed_ofAdditions additions).sites absent

/-! ## Look-ups -/

/-- The edges into a method. -/
def edgesInto (g : CallGraph s m) (method : Id m) : List (CallEdge s m) :=
  g.edges.toList.filter (·.callee = method)

/-- The callees of sites and the callers of methods follow the list of edges. -/
structure Follows (g : CallGraph s m) : Prop where
  callees (site : Id s) : g.calleesOf site = distinct ((g.edgesOutOf site).map (·.callee))
  callers (method : Id m) : g.callersOf method = distinct ((g.edgesInto method).map (·.site))

theorem follows_empty : (empty : CallGraph s m).Follows := by
  constructor
  · intro site
    simp [calleesOf, edgesOutOf, empty, Table.toList_empty, distinct]
  · intro method
    simp [callersOf, edgesInto, empty, Table.toList_empty, distinct]

theorem Follows.addReachable (follows : g.Follows) (method : Id m) (sites : List (Id s)) :
    (g.addReachable method sites).2.Follows := by
  constructor
  · rw [calleesOf_addReachable]
    simpa only [edgesOutOf, edges_addReachable] using follows.callees
  · rw [callersOf_addReachable]
    simpa only [edgesInto, edges_addReachable] using follows.callers

/-- A new edge is the last of its site and the last of its callee. -/
theorem Follows.addEdge (follows : g.Follows) (e : CallEdge s m) : (g.addEdge e).2.Follows := by
  cases known : g.hasEdge e with
  | true =>
    rw [addEdge_of_hasEdge known]
    exact follows
  | false =>
    have edges : (g.addEdge e).2.edges.toList = g.edges.toList ++ [e] := by
      apply (addsOnce g).newEdge _ |>.2
      rw [← Table.contains_iff, ← hasEdge, known]
      exact Bool.false_ne_true
    constructor
    · intro site
      have callees : (g.addEdge e).2.calleesOf site =
          if e.site = site then addNew (g.calleesOf site) e.callee else g.calleesOf site := by
        rw [addEdge_of_new known]
        exact getD_insert_addNew g.callees e.site e.callee site
      rw [callees, edgesOutOf, edges, List.filter_append, follows.callees]
      by_cases own : e.site = site
      · simp [own, edgesOutOf, distinct_append_singleton]
      · simp [own, edgesOutOf]
    · intro method
      have callers : (g.addEdge e).2.callersOf method =
          if e.callee = method then addNew (g.callersOf method) e.site else g.callersOf method := by
        rw [addEdge_of_new known]
        exact getD_insert_addNew g.callers e.callee e.site method
      rw [callers, edgesInto, edges, List.filter_append, follows.callers]
      by_cases own : e.callee = method
      · simp [own, edgesInto, distinct_append_singleton]
      · simp [own, edgesInto]

theorem Follows.add (follows : g.Follows) (a : Addition s m) : (g.add a).Follows := by
  cases a with
  | entry method => exact ⟨follows.callees, follows.callers⟩
  | reachable method sites => exact follows.addReachable method sites
  | edge e => exact follows.addEdge e

theorem follows_ofAdditions (additions : List (Addition s m)) : (ofAdditions additions).Follows :=
  ofAdditions_invariant follows_empty (fun _ a follows => follows.add a) additions

/-- The look-ups of a graph say what its lists say. -/
structure Agrees (g : CallGraph s m) : Prop where
  isReachable (method : Id m) : g.isReachable method = true ↔ method ∈ g.reachable.toList
  hasEdge (e : CallEdge s m) : g.hasEdge e = true ↔ e ∈ g.edges.toList
  callees (site : Id s) : FirstsOf ((g.edgesOutOf site).map (·.callee)) (g.calleesOf site)
  callers (method : Id m) : FirstsOf ((g.edgesInto method).map (·.site)) (g.callersOf method)
  calls (site : Id s) (method : Id m) :
    (method ∈ g.calleesOf site ↔ site ∈ g.callersOf method) ∧
      (site ∈ g.callersOf method ↔ ∃ kind, ⟨kind, site, method⟩ ∈ g.edges.toList)
  container {site : Id s} {method : Id m} : g.containerOf site = some method →
    method ∈ g.reachable.toList ∧ site ∈ g.sitesIn method
  /-- A site that one method alone has been given has the method as its container. -/
  contained {site : Id s} {method : Id m} : site ∈ g.sitesIn method →
    (∀ method', site ∈ g.sitesIn method' → method' = method) → g.containerOf site = some method
  calleesOfMethod (method : Id m) :
    FirstsOf ((g.sitesIn method).flatMap g.calleesOf) (g.calleesOfMethod method)

theorem Follows.agrees (follows : g.Follows) (indexed : g.Indexed) (located : g.Located) :
    g.Agrees where
  isReachable _ := isReachable_iff
  hasEdge _ := Table.contains_iff
  callees site := by
    rw [follows.callees]
    exact firstsOf_distinct _
  callers method := by
    rw [follows.callers]
    exact firstsOf_distinct _
  calls site method := by
    rw [indexed.callees, indexed.callers]
    exact ⟨Iff.rfl, Iff.rfl⟩
  container := located.listed
  contained {site method} mem only := by
    have reached : method ∈ g.reachable.toList := by
      by_contra absent
      rw [indexed.sites absent] at mem
      exact List.not_mem_nil mem
    obtain ⟨method', found⟩ := located.located reached mem
    rw [found, only method' (located.listed found).2]
  calleesOfMethod method := firstsOf_distinct _

/-- Whatever is added in whatever order, the graph lists what was added at its first addition, further
additions of it change nothing, and the look-ups say what the lists say. -/
theorem agrees_of_additions (additions : List (Addition s m)) :
    Lists additions (ofAdditions additions) ∧ (ofAdditions additions).AddsOnce ∧
      (ofAdditions additions).Agrees :=
  ⟨lists_ofAdditions additions, addsOnce _, (follows_ofAdditions additions).agrees
    (indexed_ofAdditions additions) (located_ofAdditions additions)⟩

/-- A site is called from before its method is known, by two kinds of edges to one callee, and the
method is given other sites later. -/
example : (ofAdditions [.edge ⟨.virtual, ⟨0⟩, ⟨1⟩⟩, .edge ⟨.special, ⟨0⟩, ⟨1⟩⟩,
    .reachable ⟨0⟩ [⟨0⟩], .reachable ⟨0⟩ [⟨1⟩]] : CallGraph .invoke .method).calleesOfMethod ⟨0⟩ =
      [⟨1⟩] := by
  decide +kernel

end CallGraph

end PointsTo
