import PointsTo.Program.Basic

/-!
# Cyclic inheritance

A depth-first walk over the supertype links of a program, superclass before interfaces and classes
in the order of their identifiers. A class that is met while its own supertypes are being walked is
one of its own supertypes. Classes whose walk is over are not walked again.
-/

namespace PointsTo

namespace Program

/-- The direct supertypes of a class; none for an identifier that names no class. -/
def supertypesOf (p : Program) (c : ClassId) : List ClassId :=
  match p.classes[c.index]? with
  | some decl => decl.supertypes
  | none => []

/-- Walks from `c` upwards below the classes of `path`, the nearest first, and adds the classes
whose walk is over to `finished`. Fails with the first class that is met on its own path. The walk
is at most `depth` links deep, which is enough when it is the number of classes: the classes of a
path differ. -/
def walkSupertypes (p : Program) : Nat → List ClassId → List ClassId → ClassId →
    Except ClassId (List ClassId)
  | 0, _, finished, _ => .ok finished
  | depth + 1, path, finished, c => do
    let finished ← (p.supertypesOf c).foldlM (fun finished above =>
      if above ∈ c :: path then .error above
      else if above ∈ finished then .ok finished
      else p.walkSupertypes depth (c :: path) finished above) finished
    return c :: finished

/-- The identifiers of the classes. -/
def classIds (p : Program) : List ClassId :=
  (List.range p.classes.size).map Id.mk

/-- The class that the walk over all classes meets on its own path, if there is one. -/
def cyclicClass? (p : Program) : Option ClassId :=
  let walk := p.classIds.foldlM (fun finished c =>
    if c ∈ finished then .ok finished
    else p.walkSupertypes p.classes.size [] finished c) []
  match walk with
  | .ok _ => none
  | .error c => some c

end Program

end PointsTo
