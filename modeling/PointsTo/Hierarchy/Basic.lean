import PointsTo.Closure
import PointsTo.Program.Basic

/-!
# Class hierarchies

The supertype links of a program read downwards: for every class its direct subclasses, and for
every interface its direct subinterfaces and implementors, in the order of their identifiers.
`isSubtype` follows the links upwards and `subtypes` follows them downwards.
-/

namespace PointsTo

/-- A program with its supertype links in both directions. -/
structure Hierarchy where
  program : Program
  subclasses : Array (List ClassId)
  subinterfaces : Array (List ClassId)
  implementors : Array (List ClassId)

namespace Hierarchy

/-- Records `below` under `above`. -/
def link (table : Array (List ClassId)) (below above : ClassId) :
    Except OutOfRange (Array (List ClassId)) := do
  let known ← fetch table above
  return table.set! above.index (known ++ [below])

/-- Records the links of one class. -/
def addClass (h : Hierarchy) (c : ClassId) (decl : ClassDecl) : Except OutOfRange Hierarchy := do
  let subclasses ← decl.superclass.toList.foldlM (link · c) h.subclasses
  if decl.isInterface then
    return { h with
      subclasses := subclasses
      subinterfaces := ← decl.interfaces.foldlM (link · c) h.subinterfaces }
  else
    return { h with
      subclasses := subclasses
      implementors := ← decl.interfaces.foldlM (link · c) h.implementors }

/-- The hierarchy of a program. It exists when all supertypes are declared. -/
def ofProgram (p : Program) : Except OutOfRange Hierarchy :=
  let none := Array.replicate p.classes.size []
  p.classes.toList.zipIdx.foldlM (fun h (decl, i) => h.addClass ⟨i⟩ decl) ⟨p, none, none, none⟩

/-! ## Direct links -/

/-- The superclass of a class. -/
def superclassOf (h : Hierarchy) (c : ClassId) : Except OutOfRange (Option ClassId) :=
  return (← h.program.classAt c).superclass

/-- The classes that extend a class directly. -/
def subclassesOf (h : Hierarchy) (c : ClassId) : Except OutOfRange (List ClassId) :=
  fetch h.subclasses c

/-- The interfaces that extend an interface directly. -/
def subinterfacesOf (h : Hierarchy) (c : ClassId) : Except OutOfRange (List ClassId) :=
  fetch h.subinterfaces c

/-- The classes that implement an interface directly. -/
def implementorsOf (h : Hierarchy) (c : ClassId) : Except OutOfRange (List ClassId) :=
  fetch h.implementors c

/-- Whether an identifier names an interface. -/
def isInterface (h : Hierarchy) (c : ClassId) : Except OutOfRange Bool :=
  return (← h.program.classAt c).isInterface

/-- The method that a class itself declares for a subsignature. -/
def declaredMethod (h : Hierarchy) (c : ClassId) (s : Subsignature) :
    Except OutOfRange (Option MethodId) :=
  return (← h.program.classAt c).method? s

/-! ## Subtypes -/

/-- The superclass and the interfaces of a class. -/
def supertypesOf (h : Hierarchy) (c : ClassId) : Except OutOfRange (List ClassId) :=
  return (← h.program.classAt c).supertypes

/-- The direct subtypes: implementors and subinterfaces of an interface, subclasses of a class. -/
def directSubtypesOf (h : Hierarchy) (c : ClassId) : Except OutOfRange (List ClassId) := do
  if ← h.isInterface c then
    return (← h.implementorsOf c) ++ (← h.subinterfacesOf c)
  else
    h.subclassesOf c

/-- Whether `sub` is `sup` or inherits from it. -/
def isSubtype (h : Hierarchy) (sub sup : ClassId) : Except OutOfRange Bool := do
  if sub = sup then return true
  let above ← closure h.supertypesOf h.program.classes.size [sub]
  return above.contains sup

/-- A class and everything below it, breadth first. -/
def subtypes (h : Hierarchy) (c : ClassId) : Except OutOfRange (List ClassId) :=
  return (← closure h.directSubtypesOf h.program.classes.size [c]).toList

end Hierarchy

end PointsTo
