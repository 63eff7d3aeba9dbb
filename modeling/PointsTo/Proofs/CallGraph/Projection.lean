import PointsTo.Proofs.CallGraph.Indexes

/-!
# Projections of call graphs

A projection is put together from the images of entries, of methods with their call sites, and of
edges, in the order of the graph. It lists each image once, where it occurs first. The image of several
methods gets the call sites of the first, and nothing is lost by that if they agree about them.
-/

namespace PointsTo

section Lists

variable {α β γ ε : Type}

/-- A fold that looks its values up folds the values that are found. -/
theorem foldlM_eq_mapM_bind (f : α → Except ε β) (step : γ → β → γ) (l : List α) (init : γ) :
    l.foldlM (fun out a => do return step out (← f a)) init =
      (do return (← l.mapM f).foldl step init) := by
  induction l generalizing init with
  | nil => rfl
  | cons a l ih =>
    rw [List.foldlM_cons, List.mapM_cons]
    simp only [bind_assoc, pure_bind, ih, List.foldl_cons]

/-- Two lists that agree in one respect agree in what follows from it. -/
theorem map_eq_map_of_imp {δ : Type} {f : α → β} {g : γ → β} {u : α → δ} {v : γ → δ}
    (imp : ∀ a c, f a = g c → u a = v c) {l : List α} {l' : List γ} (same : l.map f = l'.map g) :
    l.map u = l'.map v := by
  induction l generalizing l' with
  | nil =>
    rw [List.map_eq_nil_iff.1 same.symm]
    rfl
  | cons a l ih =>
    obtain ⟨c, l', rfl, first, rest⟩ := List.map_eq_cons_iff.1 same.symm
    rw [List.map_cons, List.map_cons, imp a c first.symm, ih rest.symm]

theorem exists_eq_ok_of_mapM {f : α → Except ε β} {l : List α} {bs : List β}
    (found : l.mapM f = .ok bs) {a : α} (mem : a ∈ l) : ∃ b, f a = .ok b := by
  have listed : f a ∈ bs.map Except.ok := by
    rw [← mapM_eq_ok_iff.1 found]
    exact List.mem_map_of_mem mem
  obtain ⟨b, -, same⟩ := List.mem_map.1 listed
  exact ⟨b, same.symm⟩

/-- What two look-ups find agrees in a respect if it does so for each value. -/
theorem map_eq_map_of_mapM {δ : Type} {f : α → Except ε β} {g : α → Except ε γ} {u : β → δ}
    {v : γ → δ} {l : List α} {xs : List β} {ys : List γ} (found : l.mapM f = .ok xs)
    (found' : l.mapM g = .ok ys) (alike : ∀ a x y, f a = .ok x → g a = .ok y → u x = v y) :
    xs.map u = ys.map v := by
  rw [mapM_eq_ok_iff] at found found'
  induction l generalizing xs ys with
  | nil =>
    rw [List.map_eq_nil_iff.1 found.symm, List.map_eq_nil_iff.1 found'.symm]
    rfl
  | cons a l ih =>
    obtain ⟨x, xs', rfl, first, rest⟩ := List.map_eq_cons_iff.1 found.symm
    obtain ⟨y, ys', rfl, first', rest'⟩ := List.map_eq_cons_iff.1 found'.symm
    rw [List.map_cons, List.map_cons, alike a x y first.symm first'.symm, ih rest.symm rest'.symm]

end Lists

namespace CallGraph

variable {s m s' m' : Entity}

/-! ## Graphs from lists -/

theorem toList_reachable_addReachable (g : CallGraph s m) (method : Id m) (sites : List (Id s)) :
    (g.addReachable method sites).2.reachable.toList = addNew g.reachable.toList method := by
  cases known : g.isReachable method with
  | true =>
    rw [addReachable_of_isReachable sites known, addNew, if_pos (isReachable_iff.1 known)]
  | false => rw [reachable_addReachable sites known, Table.toList_insert]

theorem toList_edges_addEdge (g : CallGraph s m) (e : CallEdge s m) :
    (g.addEdge e).2.edges.toList = addNew g.edges.toList e := by
  cases known : g.hasEdge e with
  | true => rw [addEdge_of_hasEdge known, addNew, if_pos (Table.contains_iff.1 known)]
  | false => rw [addEdge_of_new known, Table.toList_insert]

/-- Makes methods with their call sites reachable. -/
def addAllReachable (g : CallGraph s m) (methods : List (Id m × List (Id s))) : CallGraph s m :=
  methods.foldl (fun g x => (g.addReachable x.1 x.2).2) g

/-- Adds edges. -/
def addAllEdges (g : CallGraph s m) (edges : List (CallEdge s m)) : CallGraph s m :=
  edges.foldl (fun g e => (g.addEdge e).2) g

/-- The graph of some entries, some methods with their call sites, and some edges. -/
def assemble (entries : List (Id m)) (methods : List (Id m × List (Id s)))
    (edges : List (CallEdge s m)) : CallGraph s m :=
  ((entries.foldl addEntry empty).addAllReachable methods).addAllEdges edges

/-! What the additions of one kind leave as it is. -/

theorem entries_addAllReachable (g : CallGraph s m) (methods : List (Id m × List (Id s))) :
    (g.addAllReachable methods).entries = g.entries :=
  List.foldlRecOn (motive := fun g' => g'.entries = g.entries) methods _ rfl
    fun g' same x _ => (entries_addReachable g' x.1 x.2).trans same

theorem edges_addAllReachable (g : CallGraph s m) (methods : List (Id m × List (Id s))) :
    (g.addAllReachable methods).edges = g.edges :=
  List.foldlRecOn (motive := fun g' => g'.edges = g.edges) methods _ rfl
    fun g' same x _ => (edges_addReachable g' x.1 x.2).trans same

theorem entries_addAllEdges (g : CallGraph s m) (edges : List (CallEdge s m)) :
    (g.addAllEdges edges).entries = g.entries :=
  List.foldlRecOn (motive := fun g' => g'.entries = g.entries) edges _ rfl
    fun g' same e _ => (entries_addEdge g' e).trans same

theorem reachable_addAllEdges (g : CallGraph s m) (edges : List (CallEdge s m)) :
    (g.addAllEdges edges).reachable = g.reachable :=
  List.foldlRecOn (motive := fun g' => g'.reachable = g.reachable) edges _ rfl
    fun g' same e _ => (reachable_addEdge g' e).trans same

theorem sitesIn_addAllEdges (g : CallGraph s m) (edges : List (CallEdge s m)) (method : Id m) :
    (g.addAllEdges edges).sitesIn method = g.sitesIn method :=
  List.foldlRecOn (motive := fun g' => g'.sitesIn method = g.sitesIn method) edges _ rfl
    fun g' same e _ => (sitesIn_addEdge g' e method).trans same

/-! The call sites of methods that are made reachable one after another. -/

theorem sitesIn_addAllReachable_of_isReachable {g : CallGraph s m} {method : Id m}
    (known : g.isReachable method = true) (methods : List (Id m × List (Id s))) :
    (g.addAllReachable methods).sitesIn method = g.sitesIn method := by
  induction methods generalizing g with
  | nil => rfl
  | cons x methods ih =>
    show ((g.addReachable x.1 x.2).2.addAllReachable methods).sitesIn method = _
    have still : (g.addReachable x.1 x.2).2.isReachable method = true := by
      rw [isReachable_iff] at known ⊢
      exact mem_reachable_addReachable.2 (Or.inl known)
    rw [ih still]
    cases first : g.isReachable x.1 with
    | true => rw [addReachable_of_isReachable x.2 first]
    | false =>
      have other : x.1 ≠ method := by
        rintro rfl
        rw [first] at known
        contradiction
      rw [sitesIn_addReachable x.2 first, if_neg other]

/-- Of several lists of call sites that a method is given, the first counts. -/
theorem sitesIn_addAllReachable_of_new {g : CallGraph s m} {method : Id m}
    (new : g.isReachable method = false) (methods : List (Id m × List (Id s))) :
    (g.addAllReachable methods).sitesIn method =
      ((methods.find? (·.1 = method)).map Prod.snd).getD (g.sitesIn method) := by
  induction methods generalizing g with
  | nil => rfl
  | cons x methods ih =>
    show ((g.addReachable x.1 x.2).2.addAllReachable methods).sitesIn method = _
    by_cases own : x.1 = method
    · subst own
      have now : (g.addReachable x.1 x.2).2.isReachable x.1 = true :=
        isReachable_iff.2 (mem_reachable_addReachable.2 (Or.inr rfl))
      have first : (x :: methods).find? (·.1 = x.1) = some x := List.find?_cons_of_pos (by simp)
      rw [sitesIn_addAllReachable_of_isReachable now, sitesIn_addReachable x.2 new, if_pos rfl,
        first]
      rfl
    · have still : (g.addReachable x.1 x.2).2.isReachable method = false := by
        rw [← Bool.not_eq_true, isReachable_iff] at new ⊢
        rw [mem_reachable_addReachable]
        exact not_or.2 ⟨new, Ne.symm own⟩
      rw [ih still, List.find?_cons_of_neg (by simpa using own)]
      cases first : g.isReachable x.1 with
      | true => rw [addReachable_of_isReachable x.2 first]
      | false => rw [sitesIn_addReachable x.2 first, if_neg own]

/-! The lists of an assembled graph. -/

section Assemble

variable (entries : List (Id m)) (methods : List (Id m × List (Id s))) (edges : List (CallEdge s m))

theorem entries_assemble : (assemble entries methods edges).entries.toList = distinct entries := by
  rw [assemble, entries_addAllEdges, entries_addAllReachable]
  exact (List.foldl_hom (fun g : CallGraph s m => g.entries.toList)
    fun g method => (Table.toList_insert g.entries method).symm).symm

theorem reachable_assemble :
    (assemble entries methods edges).reachable.toList = distinct (methods.map Prod.fst) := by
  have none : (entries.foldl addEntry (empty : CallGraph s m)).reachable.toList = [] := by
    rw [(foldl_addEntry entries empty).1]
    rfl
  rw [assemble, reachable_addAllEdges, distinct, List.foldl_map, ← none]
  exact (List.foldl_hom (fun g : CallGraph s m => g.reachable.toList)
    fun g x => (toList_reachable_addReachable g x.1 x.2).symm).symm

theorem edges_assemble : (assemble entries methods edges).edges.toList = distinct edges := by
  have none : ((entries.foldl addEntry (empty : CallGraph s m)).addAllReachable
      methods).edges.toList = [] := by
    rw [edges_addAllReachable, (foldl_addEntry entries empty).2]
    rfl
  rw [assemble, distinct, ← none]
  exact (List.foldl_hom (fun g : CallGraph s m => g.edges.toList)
    fun g e => (toList_edges_addEdge g e).symm).symm

/-- What holds of the empty graph and is kept by additions holds of an assembled graph. -/
theorem assemble_invariant {inv : CallGraph s m → Prop} (start : inv empty)
    (entry : ∀ g method, inv g → inv (g.addEntry method))
    (reachable : ∀ g method sites, inv g → inv (g.addReachable method sites).2)
    (edge : ∀ g e, inv g → inv (g.addEdge e).2) : inv (assemble entries methods edges) :=
  List.foldlRecOn edges _
    (List.foldlRecOn methods _
      (List.foldlRecOn entries _ start fun g holds method _ => entry g method holds)
      fun g holds x _ => reachable g x.1 x.2 holds)
    fun g holds e _ => edge g e holds

theorem indexed_assemble : (assemble entries methods edges).Indexed :=
  assemble_invariant entries methods edges indexed_empty
    (fun _ method indexed => indexed.addEntry method)
    (fun _ method sites indexed => indexed.addReachable method sites)
    fun _ e indexed => indexed.addEdge e

theorem located_assemble : (assemble entries methods edges).Located := by
  refine assemble_invariant entries methods edges located_empty
    (fun _ _ located => ⟨located.listed, located.located⟩) (fun g method sites located => ?_)
    fun _ e located => located.addEdge e
  cases known : g.isReachable method with
  | true =>
    rw [addReachable_of_isReachable sites known]
    exact located
  | false => exact located.addReachable sites known

/-- A method has the call sites that it is given first. -/
theorem sitesIn_assemble_eq_find (method : Id m) :
    (assemble entries methods edges).sitesIn method =
      ((methods.find? (·.1 = method)).map Prod.snd).getD [] := by
  have new : (entries.foldl addEntry (empty : CallGraph s m)).isReachable method = false := by
    rw [← Bool.not_eq_true, isReachable_iff, (foldl_addEntry entries empty).1]
    exact reachable_empty method
  have none : (entries.foldl addEntry (empty : CallGraph s m)).sitesIn method = [] :=
    List.foldlRecOn (motive := fun g : CallGraph s m => g.sitesIn method = []) entries _
      (indexed_empty.sites (reachable_empty method)) fun _ none _ _ => none
  rw [assemble, sitesIn_addAllEdges, sitesIn_addAllReachable_of_new new, none]

variable {methods}

/-- A method has the call sites that it is given, if it is given the same each time. -/
theorem sitesIn_assemble {method : Id m} {sites : List (Id s)}
    (listed : method ∈ (assemble entries methods edges).reachable.toList)
    (alike : ∀ x ∈ methods, x.1 = method → x.2 = sites) :
    (assemble entries methods edges).sitesIn method = sites := by
  rw [reachable_assemble, mem_distinct] at listed
  obtain ⟨x, mem, own⟩ := List.mem_map.1 listed
  rw [sitesIn_assemble_eq_find]
  cases found : methods.find? (·.1 = method) with
  | none =>
    have other := List.find?_eq_none.1 found x mem
    simp [own] at other
  | some first =>
    have own' : first.1 = method := by simpa using List.find?_some found
    exact alike first (List.mem_of_find?_eq_some found) own'

end Assemble

/-! ## Projections -/

section Project

variable {ε : Type} (ofSite : Id s → Except ε (Id s')) (ofMethod : Id m → Except ε (Id m'))

/-- The image of a method with the images of its call sites. -/
def methodImage (g : CallGraph s m) (method : Id m) : Except ε (Id m' × List (Id s')) := do
  return (← ofMethod method, ← (g.sitesIn method).mapM ofSite)

theorem methodImage_eq_ok_iff {g : CallGraph s m} {method : Id m} {z : Id m' × List (Id s')} :
    g.methodImage ofSite ofMethod method = .ok z ↔
      ofMethod method = .ok z.1 ∧ (g.sitesIn method).mapM ofSite = .ok z.2 := by
  simp only [methodImage, bind_eq_ok_iff, pure_eq_ok_iff]
  constructor
  · rintro ⟨image, found, sites, mapped, rfl⟩
    exact ⟨found, mapped⟩
  · rintro ⟨found, mapped⟩
    exact ⟨z.1, found, z.2, mapped, rfl⟩

/-- The image of an edge. -/
def edgeImage (e : CallEdge s m) : Except ε (CallEdge s' m') := do
  return ⟨e.kind, ← ofSite e.site, ← ofMethod e.callee⟩

theorem edgeImage_eq_ok_iff {e : CallEdge s m} {e' : CallEdge s' m'} :
    edgeImage ofSite ofMethod e = .ok e' ↔
      e.kind = e'.kind ∧ ofSite e.site = .ok e'.site ∧ ofMethod e.callee = .ok e'.callee := by
  simp only [edgeImage, bind_eq_ok_iff, pure_eq_ok_iff]
  constructor
  · rintro ⟨site, found, callee, found', rfl⟩
    exact ⟨rfl, found, found'⟩
  · rintro ⟨kind, found, found'⟩
    exact ⟨e'.site, found, e'.callee, found', by rw [kind]⟩

/-- A projection is put together from images, which are looked up in the same order. -/
theorem project_eq_assemble (g : CallGraph s m) :
    g.project ofSite ofMethod = (do
      let entries ← g.entries.toList.mapM ofMethod
      let methods ← g.reachable.toList.mapM (g.methodImage ofSite ofMethod)
      let edges ← g.edges.toList.mapM (edgeImage ofSite ofMethod)
      return assemble entries methods edges) := by
  have methods := foldlM_eq_mapM_bind (g.methodImage ofSite ofMethod)
    (fun (out : CallGraph s' m') x => (out.addReachable x.1 x.2).2) g.reachable.toList
  have edges := foldlM_eq_mapM_bind (edgeImage ofSite ofMethod)
    (fun (out : CallGraph s' m') e => (out.addEdge e).2) g.edges.toList
  simp only [methodImage, edgeImage, bind_assoc, pure_bind] at methods edges
  simp only [project, methods, edges, bind_assoc, pure_bind]
  rfl

theorem project_eq_ok_iff {g : CallGraph s m} {out : CallGraph s' m'} :
    g.project ofSite ofMethod = .ok out ↔
      ∃ entries methods edges, g.entries.toList.mapM ofMethod = .ok entries ∧
        g.reachable.toList.mapM (g.methodImage ofSite ofMethod) = .ok methods ∧
        g.edges.toList.mapM (edgeImage ofSite ofMethod) = .ok edges ∧
        out = assemble entries methods edges := by
  simp only [project_eq_assemble, bind_eq_ok_iff, pure_eq_ok_iff, exists_and_left, eq_comm (b := out)]

/-- A projection has the images of methods and edges, and no others. -/
theorem exists_project {g : CallGraph s m}
    (entries : ∀ e ∈ g.entries.toList, ∃ e', ofMethod e = .ok e')
    (methods : ∀ x ∈ g.reachable.toList, (∃ x', ofMethod x = .ok x') ∧
      ∀ i ∈ g.sitesIn x, ∃ i', ofSite i = .ok i')
    (edges : ∀ e ∈ g.edges.toList, (∃ i, ofSite e.site = .ok i) ∧ ∃ x, ofMethod e.callee = .ok x) :
    ∃ out, g.project ofSite ofMethod = .ok out ∧
      (∀ x', x' ∈ out.reachable.toList ↔ ∃ x ∈ g.reachable.toList, ofMethod x = .ok x') ∧
      ∀ e', e' ∈ out.edges.toList ↔ ∃ e ∈ g.edges.toList, e.kind = e'.kind ∧
        ofSite e.site = .ok e'.site ∧ ofMethod e.callee = .ok e'.callee := by
  obtain ⟨entered, first⟩ := exists_mapM_eq_ok entries
  obtain ⟨images, second⟩ := exists_mapM_eq_ok (f := g.methodImage ofSite ofMethod) fun x listed => by
    obtain ⟨⟨x', found⟩, known⟩ := methods x listed
    obtain ⟨sites, mapped⟩ := exists_mapM_eq_ok known
    exact ⟨(x', sites), (methodImage_eq_ok_iff ofSite ofMethod).2 ⟨found, mapped⟩⟩
  obtain ⟨calls, third⟩ := exists_mapM_eq_ok (f := edgeImage ofSite ofMethod) fun e listed => by
    obtain ⟨⟨i, found⟩, x, found'⟩ := edges e listed
    exact ⟨⟨e.kind, i, x⟩, (edgeImage_eq_ok_iff ofSite ofMethod).2 ⟨rfl, found, found'⟩⟩
  refine ⟨assemble entered images calls, (project_eq_ok_iff ofSite ofMethod).2
    ⟨entered, images, calls, first, second, third, rfl⟩, fun x' => ?_, fun e' => ?_⟩
  · rw [reachable_assemble, mem_distinct, List.mem_map]
    constructor
    · rintro ⟨z, mem, rfl⟩
      obtain ⟨x, listed, image⟩ := (mem_of_mapM_eq_ok second).1 mem
      exact ⟨x, listed, ((methodImage_eq_ok_iff ofSite ofMethod).1 image).1⟩
    · rintro ⟨x, listed, found⟩
      obtain ⟨z, image⟩ := exists_eq_ok_of_mapM second listed
      refine ⟨z, (mem_of_mapM_eq_ok second).2 ⟨x, listed, image⟩, ?_⟩
      have same := ((methodImage_eq_ok_iff ofSite ofMethod).1 image).1
      exact Except.ok.inj (same.symm.trans found)
  · rw [edges_assemble, mem_distinct, mem_of_mapM_eq_ok third]
    simp only [edgeImage_eq_ok_iff]

end Project

end CallGraph

end PointsTo
