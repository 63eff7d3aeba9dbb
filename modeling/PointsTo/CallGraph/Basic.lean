import PointsTo.Distinct
import PointsTo.Program.Basic
import PointsTo.Table

/-!
# Call graphs

Which methods can run and which call sites call them. The graph is generic in what its call sites
and methods are: entities of the program, or such entities under a calling context. Nodes and edges
are only ever added, and the additions that drive an analysis say whether they changed anything.
-/

namespace PointsTo

/-- A call from a site to a method. -/
structure CallEdge (s m : Entity) where
  kind : CallKind
  site : Id s
  callee : Id m
deriving DecidableEq, Repr

/-- The place of a kind among the kinds. -/
def CallKind.rank : CallKind → Nat
  | .static => 0
  | .special => 1
  | .virtual => 2
  | .interface => 3

instance {s m : Entity} : Keyed (CallEdge s m) where
  code e := [e.kind.rank, e.site.index, e.callee.index]
  code_injective := by
    rintro ⟨k, ⟨i⟩, ⟨j⟩⟩ ⟨k', ⟨i'⟩, ⟨j'⟩⟩ same
    simp only [List.cons.injEq, and_true] at same
    obtain ⟨kinds, rfl, rfl⟩ := same
    cases k <;> cases k' <;> simp_all [CallKind.rank]

/-- A call graph with call sites of one kind of entity and methods of another. -/
structure CallGraph (s m : Entity) where
  /-- The methods that everything starts from. -/
  entries : Table (Id m)
  /-- The methods that can run, in the order of their discovery. -/
  reachable : Table (Id m)
  /-- The call sites of each reachable method. -/
  sites : Map (Id m) (List (Id s))
  /-- The method of each call site; of several, the latest. -/
  containers : Map (Id s) (Id m)
  /-- The edges, in the order of their discovery. -/
  edges : Table (CallEdge s m)
  /-- The callees of each site over all kinds. -/
  callees : Map (Id s) (List (Id m))
  /-- The sites that call each method, over all kinds. -/
  callers : Map (Id m) (List (Id s))

namespace CallGraph

variable {s m s' m' : Entity}

/-- The graph without nodes. -/
def empty : CallGraph s m := ⟨.empty, .empty, ∅, ∅, .empty, ∅, ∅⟩

/-! ## Additions -/

/-- Adds an entry. -/
def addEntry (g : CallGraph s m) (method : Id m) : CallGraph s m :=
  { g with entries := g.entries.insert method }

/-- Makes a method reachable and records its call sites, and says whether it is new. A method that
is reachable already keeps its sites. -/
def addReachable (g : CallGraph s m) (method : Id m) (sites : List (Id s)) :
    Bool × CallGraph s m :=
  if g.reachable.contains method then (false, g)
  else
    (true, { g with
      reachable := g.reachable.insert method
      sites := g.sites.insert method sites
      containers := sites.foldl (·.insert · method) g.containers })

/-- Adds an edge, and says whether it is new. -/
def addEdge (g : CallGraph s m) (e : CallEdge s m) : Bool × CallGraph s m :=
  if g.edges.contains e then (false, g)
  else
    (true, { g with
      edges := g.edges.insert e
      callees := g.callees.insert e.site (addNew (g.callees.getD e.site []) e.callee)
      callers := g.callers.insert e.callee (addNew (g.callers.getD e.callee []) e.site) })

/-! ## Queries -/

/-- Whether a method can run. -/
def isReachable (g : CallGraph s m) (method : Id m) : Bool :=
  g.reachable.contains method

/-- Whether the graph has an edge. -/
def hasEdge (g : CallGraph s m) (e : CallEdge s m) : Bool :=
  g.edges.contains e

/-- The call sites of a reachable method. -/
def sitesIn (g : CallGraph s m) (method : Id m) : List (Id s) :=
  g.sites.getD method []

/-- The method that a call site stands in. -/
def containerOf (g : CallGraph s m) (site : Id s) : Option (Id m) :=
  g.containers[site]?

/-- The methods that a call site calls. -/
def calleesOf (g : CallGraph s m) (site : Id s) : List (Id m) :=
  g.callees.getD site []

/-- The call sites that call a method. -/
def callersOf (g : CallGraph s m) (method : Id m) : List (Id s) :=
  g.callers.getD method []

/-- The methods that the call sites of a method call. -/
def calleesOfMethod (g : CallGraph s m) (method : Id m) : List (Id m) :=
  distinct ((g.sitesIn method).flatMap g.calleesOf)

/-- The edges out of a call site. -/
def edgesOutOf (g : CallGraph s m) (site : Id s) : List (CallEdge s m) :=
  g.edges.toList.filter (·.site = site)

/-! ## Projection -/

/-- The graph of the images of sites and methods. Of several methods with one image, the first
gives the image its call sites. -/
def project {ε : Type} (g : CallGraph s m) (ofSite : Id s → Except ε (Id s'))
    (ofMethod : Id m → Except ε (Id m')) : Except ε (CallGraph s' m') := do
  let entries ← g.entries.toList.mapM ofMethod
  let out := entries.foldl addEntry (empty : CallGraph s' m')
  let out ← g.reachable.toList.foldlM (fun out method => do
    let image ← ofMethod method
    return (out.addReachable image (← (g.sitesIn method).mapM ofSite)).2) out
  g.edges.toList.foldlM (fun out e => do
    let site ← ofSite e.site
    return (out.addEdge ⟨e.kind, site, ← ofMethod e.callee⟩).2) out

end CallGraph

end PointsTo
