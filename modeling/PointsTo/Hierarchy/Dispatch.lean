import PointsTo.Hierarchy.Basic

/-!
# Method dispatch

Which method a call reaches. A symbolic reference is resolved along the superclass chain of the
class it names. Dispatch looks for a concrete method along that chain first, and then among the
interfaces of the chain, breadth first.
-/

namespace PointsTo

namespace Hierarchy

/-- A class and its superclasses, the nearest first, at most `bound` of them. -/
def chainFrom (h : Hierarchy) : Nat → ClassId → Except OutOfRange (List ClassId)
  | 0, _ => .ok []
  | bound + 1, c => do
    match ← h.superclassOf c with
    | none => return [c]
    | some above => return c :: (← h.chainFrom bound above)

/-- A class and its superclasses, the nearest first. -/
def chain (h : Hierarchy) (c : ClassId) : Except OutOfRange (List ClassId) :=
  h.chainFrom (h.program.classes.size + 1) c

/-- The first declaration of a subsignature among some classes. -/
def firstDeclared (h : Hierarchy) (s : Subsignature) :
    List ClassId → Except OutOfRange (Option MethodId)
  | [] => .ok none
  | c :: rest => do
    match ← h.declaredMethod c s with
    | some m => return some m
    | none => h.firstDeclared s rest

/-- The first declaration of a subsignature among some classes that is not abstract. -/
def firstConcrete (h : Hierarchy) (s : Subsignature) :
    List ClassId → Except OutOfRange (Option MethodId)
  | [] => .ok none
  | c :: rest => do
    match ← h.declaredMethod c s with
    | some m => if (← h.program.methodAt m).isAbstract then h.firstConcrete s rest else return some m
    | none => h.firstConcrete s rest

/-- The method that a reference names: the nearest declaration in the named class or above it,
abstract or not. -/
def resolve (h : Hierarchy) (r : MethodRef) : Except OutOfRange (Option MethodId) := do
  h.firstDeclared r.subsignature (← h.chain r.owner)

/-- The interfaces that the classes of a chain list, in chain order. -/
def chainInterfaces (h : Hierarchy) (chain : List ClassId) : Except OutOfRange (List ClassId) :=
  return (← chain.mapM fun c => return (← h.program.classAt c).interfaces).flatten

/-- The first concrete default method among the interfaces of a chain and the interfaces they
extend, breadth first. -/
def dispatchDefault (h : Hierarchy) (chain : List ClassId) (s : Subsignature) :
    Except OutOfRange (Option MethodId) := do
  let next (c : ClassId) : Except OutOfRange (List ClassId) :=
    return (← h.program.classAt c).interfaces
  let interfaces ← closure next h.program.classes.size (← h.chainInterfaces chain)
  h.firstConcrete s interfaces.toList

/-- The method that runs for a subsignature on an object of a class. -/
def dispatch (h : Hierarchy) (c : ClassId) (s : Subsignature) :
    Except OutOfRange (Option MethodId) := do
  let chain ← h.chain c
  match ← h.firstConcrete s chain with
  | some m => return some m
  | none => h.dispatchDefault chain s

/-- The target of a static call: what the reference names, if that is static. -/
def resolveStatic (h : Hierarchy) (r : MethodRef) : Except OutOfRange (Option MethodId) := do
  match ← h.resolve r with
  | none => return none
  | some m => if (← h.program.methodAt m).isStatic then return some m else return none

/-- The target of a special call: dispatch on the named class. -/
def resolveSpecial (h : Hierarchy) (r : MethodRef) : Except OutOfRange (Option MethodId) :=
  h.dispatch r.owner r.subsignature

/-- The method that runs for a subsignature on an object of a type. Arrays dispatch on the object
class of the program. -/
def dispatchOn (h : Hierarchy) (ty : Ty) (s : Subsignature) : Except OutOfRange (Option MethodId) :=
  match ty with
  | .ref c => h.dispatch c s
  | .array _ =>
    match h.program.objectClass with
    | some root => h.dispatch root s
    | none => .ok none

end Hierarchy

end PointsTo
