import PointsTo.Element.Basic
import PointsTo.IdSet

/-!
# The element store

Interned locations, objects, methods and call sites under contexts, with one points-to set for each
location. Asking for an element makes it if it is new; asking again gives the same identifier.
-/

namespace PointsTo

/-- Interned elements and the points-to sets of the locations. -/
structure ElementStore where
  pointers : Table PointerKey
  pointsTo : Array ObjectSet
  objects : Table CsObj
  methods : Table CsMethod
  callSites : Table CsCallSite
  /-- Every location has one points-to set. -/
  pointsTo_size : pointsTo.size = pointers.size

namespace ElementStore

/-- The store without elements. -/
def empty : ElementStore := ⟨.empty, #[], .empty, .empty, .empty, rfl⟩

instance : Inhabited ElementStore := ⟨empty⟩

/-! ## Locations -/

/-- The identifier of a location. A new location starts with the empty set. -/
def pointer (s : ElementStore) (k : PointerKey) : PointerId × ElementStore :=
  match h : s.pointers.find? k with
  | some i => (⟨i⟩, s)
  | none => (⟨s.pointers.size⟩, { s with
      pointers := s.pointers.push k h
      pointsTo := s.pointsTo.push .empty
      pointsTo_size := by simp [Table.push, Table.size, s.pointsTo_size] })

/-- The identifier of a location that exists. -/
def findPointer? (s : ElementStore) (k : PointerKey) : Option PointerId :=
  (s.pointers.find? k).map Id.mk

/-- The location that an identifier names. -/
def pointerKey (s : ElementStore) (p : PointerId) : Except OutOfRange PointerKey :=
  fetch s.pointers.items p

/-- The points-to set of a location. -/
def pointsToSet (s : ElementStore) (p : PointerId) : Except OutOfRange ObjectSet :=
  fetch s.pointsTo p

/-- Replaces the points-to set of a location. -/
def setPointsTo (s : ElementStore) (p : PointerId) (set : ObjectSet) : ElementStore :=
  { s with
    pointsTo := s.pointsTo.setIfInBounds p.index set
    pointsTo_size := by simp [s.pointsTo_size] }

/-- All locations with their identifiers. -/
def pointerList (s : ElementStore) : List (PointerId × PointerKey) :=
  s.pointers.toList.zipIdx.map fun (k, i) => (⟨i⟩, k)

/-- The variables among the locations. -/
def varPointers (s : ElementStore) : List (PointerId × ContextId × VarId) :=
  s.pointerList.filterMap fun
    | (p, .var c v) => some (p, c, v)
    | _ => none

/-- The static fields among the locations. -/
def staticFieldPointers (s : ElementStore) : List (PointerId × FieldId) :=
  s.pointerList.filterMap fun
    | (p, .staticField f) => some (p, f)
    | _ => none

/-- The fields of objects among the locations. -/
def instanceFieldPointers (s : ElementStore) : List (PointerId × CsObjId × FieldId) :=
  s.pointerList.filterMap fun
    | (p, .instanceField o f) => some (p, o, f)
    | _ => none

/-- The array elements among the locations. -/
def arrayPointers (s : ElementStore) : List (PointerId × CsObjId) :=
  s.pointerList.filterMap fun
    | (p, .arrayIndex o) => some (p, o)
    | _ => none

/-! ## Objects, methods and call sites under contexts -/

/-- The identifier of an object under a heap context. -/
def csObj (s : ElementStore) (o : CsObj) : CsObjId × ElementStore :=
  let (i, objects) := s.objects.intern o
  (⟨i⟩, { s with objects := objects })

/-- The identifier of a method under a context. -/
def csMethod (s : ElementStore) (m : CsMethod) : CsMethodId × ElementStore :=
  let (i, methods) := s.methods.intern m
  (⟨i⟩, { s with methods := methods })

/-- The identifier of a call site under a context. -/
def csCallSite (s : ElementStore) (i : CsCallSite) : CsCallSiteId × ElementStore :=
  let (j, callSites) := s.callSites.intern i
  (⟨j⟩, { s with callSites := callSites })

/-- The object under a heap context that an identifier names. -/
def csObjAt (s : ElementStore) (o : CsObjId) : Except OutOfRange CsObj :=
  fetch s.objects.items o

/-- The method under a context that an identifier names. -/
def csMethodAt (s : ElementStore) (m : CsMethodId) : Except OutOfRange CsMethod :=
  fetch s.methods.items m

/-- The call site under a context that an identifier names. -/
def csCallSiteAt (s : ElementStore) (i : CsCallSiteId) : Except OutOfRange CsCallSite :=
  fetch s.callSites.items i

/-- The identifier of a method under a context that exists. -/
def findCsMethod? (s : ElementStore) (m : CsMethod) : Option CsMethodId :=
  (s.methods.find? m).map Id.mk

end ElementStore

end PointsTo
