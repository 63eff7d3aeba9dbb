import PointsTo.Proofs.CallGraph.Additions

/-!
# Images of call graphs

The projection of a call graph along two maps, for graphs made by any sequence of additions. Entries,
methods and edges are images, and no image is missing. But methods with one image do not share their
call sites: the first of them gives the image its sites, and those of the others are lost unless the
first has sites with the same images.
-/

namespace PointsTo

variable {s m s' m' : Entity}

/-- The edge between the images. -/
def CallEdge.map (f : Id s → Id s') (k : Id m → Id m') (e : CallEdge s m) : CallEdge s' m' :=
  ⟨e.kind, f e.site, k e.callee⟩

namespace CallGraph

/-! ## Projection along total maps -/

section Image

variable (g : CallGraph s m) (f : Id s → Id s') (k : Id m → Id m')

/-- The graph of the images under two maps. -/
def image : CallGraph s' m' :=
  assemble (g.entries.toList.map k)
    (g.reachable.toList.map fun x => (k x, (g.sitesIn x).map f)) (g.edges.toList.map (·.map f k))

/-- A projection along maps that always have a value is the graph of the images. -/
theorem project_eq_ok_image (ε : Type) :
    (g.project (fun i => .ok (f i)) (fun x => .ok (k x)) : Except ε (CallGraph s' m')) =
      .ok (g.image f k) := by
  have mapped {α β : Type} (l : List α) (h : α → β) :
      l.mapM (fun a => (.ok (h a) : Except ε β)) = .ok (l.map h) := by
    rw [mapM_eq_ok_iff, List.map_map]
    rfl
  have images : g.methodImage (fun i => (.ok (f i) : Except ε (Id s'))) (fun x => .ok (k x)) =
      fun x => .ok (k x, (g.sitesIn x).map f) := by
    funext x
    exact (methodImage_eq_ok_iff _ _).2 ⟨rfl, mapped (g.sitesIn x) f⟩
  have images' : edgeImage (fun i => (.ok (f i) : Except ε (Id s'))) (fun x => .ok (k x)) =
      fun e => .ok (e.map f k) := rfl
  rw [project_eq_assemble, images, images', mapped, mapped, mapped]
  rfl

/-- The first reachable method with the image of a method. -/
def firstAlike (method : Id m) : Id m :=
  (g.reachable.toList.find? (k · = k method)).getD method

variable {g}

theorem indexed_image : (g.image f k).Indexed :=
  indexed_assemble _ _ _

theorem sitesIn_image {method : Id m} (listed : method ∈ g.reachable.toList) :
    (g.image f k).sitesIn (k method) = (g.sitesIn (g.firstAlike k method)).map f := by
  rw [image, sitesIn_assemble_eq_find, List.find?_map, firstAlike]
  cases found : g.reachable.toList.find? (k · = k method) with
  | none =>
    have absent := List.find?_eq_none.1 found method listed
    simp at absent
  | some first =>
    have found' : g.reachable.toList.find?
        ((fun y : Id m' × List (Id s') => decide (y.1 = k method)) ∘
          fun x => (k x, (g.sitesIn x).map f)) = some first := found
    rw [found']
    rfl

theorem mem_edges_image {e' : CallEdge s' m'} :
    e' ∈ (g.image f k).edges.toList ↔ ∃ e ∈ g.edges.toList, e.map f k = e' := by
  rw [image, edges_assemble, mem_distinct, List.mem_map]

theorem mem_calleesOfMethod_image {method : Id m} (listed : method ∈ g.reachable.toList)
    {callee' : Id m'} :
    callee' ∈ (g.image f k).calleesOfMethod (k method) ↔
      ∃ site ∈ g.sitesIn (g.firstAlike k method), ∃ e ∈ g.edges.toList,
        f e.site = f site ∧ k e.callee = callee' := by
  rw [(indexed_image f k).mem_calleesOfMethod, sitesIn_image f k listed]
  constructor
  · rintro ⟨site', mem', kind, edge⟩
    obtain ⟨site, mem, rfl⟩ := List.mem_map.1 mem'
    obtain ⟨e, old, same⟩ := (mem_edges_image f k).1 edge
    obtain ⟨-, sites, callees⟩ := CallEdge.mk.inj same
    exact ⟨site, mem, e, old, sites, callees⟩
  · rintro ⟨site, mem, e, old, sites, rfl⟩
    refine ⟨f site, List.mem_map_of_mem mem, e.kind, (mem_edges_image f k).2 ⟨e, old, ?_⟩⟩
    rw [CallEdge.map, sites]

end Image

/-! ## What a projection keeps -/

section Keeps

variable (f : Id s → Id s') (k : Id m → Id m') (g : CallGraph s m) (out : CallGraph s' m')

/-- A graph lists the images of another, and the image of several methods has the call sites of the
first of them. -/
structure IsImage : Prop where
  entries : FirstsOf (g.entries.toList.map k) out.entries.toList
  reachable : FirstsOf (g.reachable.toList.map k) out.reachable.toList
  edges : FirstsOf (g.edges.toList.map (·.map f k)) out.edges.toList
  sites {method : Id m} : method ∈ g.reachable.toList →
    out.sitesIn (k method) = (g.sitesIn (g.firstAlike k method)).map f
  callees {method : Id m} {callee' : Id m'} : method ∈ g.reachable.toList →
    (callee' ∈ out.calleesOfMethod (k method) ↔
      ∃ site ∈ g.sitesIn (g.firstAlike k method), ∃ e ∈ g.edges.toList,
        f e.site = f site ∧ k e.callee = callee')

/-- A graph has the images of what each reachable method of another has: its call sites and its
callees. -/
structure Keeps : Prop where
  sites {method : Id m} {site : Id s} : method ∈ g.reachable.toList → site ∈ g.sitesIn method →
    f site ∈ out.sitesIn (k method)
  callees {method callee : Id m} : method ∈ g.reachable.toList →
    callee ∈ g.calleesOfMethod method → k callee ∈ out.calleesOfMethod (k method)

/-- Every call site has the image of a site of the first method with the same image as its own. -/
def SharesSites : Prop :=
  ∀ method ∈ g.reachable.toList, ∀ site ∈ g.sitesIn method,
    ∃ first ∈ g.sitesIn (g.firstAlike k method), f first = f site

variable {f k g}

theorem isImage_image : IsImage f k g (g.image f k) where
  entries := by
    rw [image, entries_assemble]
    exact firstsOf_distinct _
  reachable := by
    rw [image, reachable_assemble, List.map_map]
    exact firstsOf_distinct _
  edges := by
    rw [image, edges_assemble]
    exact firstsOf_distinct _
  sites := sitesIn_image f k
  callees listed := mem_calleesOfMethod_image f k listed

/-- The callees are kept where the call sites are, since no edge is lost. -/
theorem Indexed.keeps_image (indexed : g.Indexed)
    (sites : ∀ method ∈ g.reachable.toList, ∀ site ∈ g.sitesIn method,
      f site ∈ (g.image f k).sitesIn (k method)) : Keeps f k g (g.image f k) := by
  refine ⟨fun listed mem => sites _ listed _ mem, fun {method callee} listed called => ?_⟩
  obtain ⟨site, mem, kind, edge⟩ := indexed.mem_calleesOfMethod.1 called
  rw [(indexed_image f k).mem_calleesOfMethod]
  exact ⟨f site, sites method listed site mem, kind, (mem_edges_image f k).2 ⟨_, edge, rfl⟩⟩

theorem Indexed.keeps_image_iff (indexed : g.Indexed) :
    Keeps f k g (g.image f k) ↔ SharesSites f k g := by
  constructor
  · intro keeps method listed site mem
    have kept := keeps.sites listed mem
    rw [sitesIn_image f k listed] at kept
    exact List.mem_map.1 kept
  · intro shares
    refine indexed.keeps_image fun method listed site mem => ?_
    rw [sitesIn_image f k listed]
    exact List.mem_map.2 (shares method listed site mem)

end Keeps

/-- The projection of a graph that any additions have made, along any two maps, lists each image of an
entry, a method and an edge where it occurs first. The image of several methods has the call sites of
the first, so the sites and callees of all methods are kept exactly when the first always has sites
with the images of those of the others. -/
theorem isImage_of_project (additions : List (Addition s m)) (f : Id s → Id s') (k : Id m → Id m')
    (ε : Type) :
    ∃ out, ((ofAdditions additions).project (fun i => .ok (f i)) (fun x => .ok (k x)) :
        Except ε (CallGraph s' m')) = .ok out ∧
      IsImage f k (ofAdditions additions) out ∧
      (Keeps f k (ofAdditions additions) out ↔ SharesSites f k (ofAdditions additions)) :=
  ⟨_, project_eq_ok_image _ f k ε, isImage_image, (indexed_ofAdditions additions).keeps_image_iff⟩

/-- Two methods with a call site each, and a third that the second calls. -/
def twoCallers : List (Addition .invoke .method) :=
  [.reachable ⟨0⟩ [⟨0⟩], .reachable ⟨1⟩ [⟨1⟩], .reachable ⟨2⟩ [], .edge ⟨.static, ⟨1⟩, ⟨2⟩⟩]

/-- When a map merges the two, the image has lost the call site and the callee of the second. -/
theorem exists_project_loses : ∃ out : CallGraph .invoke .method,
    ((ofAdditions twoCallers).project .ok (fun x => .ok ⟨x.index / 2⟩) : Except OutOfRange _) =
      .ok out ∧
    ⟨1⟩ ∈ (ofAdditions twoCallers).reachable.toList ∧
    ⟨1⟩ ∈ (ofAdditions twoCallers).sitesIn ⟨1⟩ ∧ ⟨1⟩ ∉ out.sitesIn ⟨0⟩ ∧
    ⟨2⟩ ∈ (ofAdditions twoCallers).calleesOfMethod ⟨1⟩ ∧ ⟨1⟩ ∉ out.calleesOfMethod ⟨0⟩ ∧
    ¬Keeps id (fun x => ⟨x.index / 2⟩) (ofAdditions twoCallers) out := by
  have run := project_eq_ok_image (ofAdditions twoCallers) id (fun x => (⟨x.index / 2⟩ : MethodId))
    OutOfRange
  have reachable : ⟨1⟩ ∈ (ofAdditions twoCallers).reachable.toList := by
    decide +kernel
  have site : ⟨1⟩ ∈ (ofAdditions twoCallers).sitesIn ⟨1⟩ := by
    decide +kernel
  have lost : ⟨1⟩ ∉ ((ofAdditions twoCallers).image id
      fun x => (⟨x.index / 2⟩ : MethodId)).sitesIn ⟨0⟩ := by
    decide +kernel
  refine ⟨_, run, reachable, site, lost, ?_, ?_, fun keeps => lost (keeps.sites reachable site)⟩
  · decide +kernel
  · decide +kernel

end CallGraph

end PointsTo
