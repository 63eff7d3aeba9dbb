import PointsTo.Id

/-!
# Programs

The part of an object-oriented program that moves references: classes with their supertypes and
method tables, method bodies made of pointer-relevant statements, and call sites. Entities refer to
each other by identifier; a look-up fails when an identifier names nothing.
-/

namespace PointsTo

/-! ## Types and method references -/

/-- The type of an allocated object. -/
inductive Ty where
  /-- A class or an interface. -/
  | ref (c : ClassId)
  /-- An array of elements of a type. -/
  | array (elem : Ty)
deriving DecidableEq, Repr, Ord

namespace Ty

/-- A class type under a number of array dimensions. -/
def arrayOf (c : ClassId) : Nat → Ty
  | 0 => .ref c
  | n + 1 => .array (arrayOf c n)

/-- The class of a class type. -/
def class? : Ty → Option ClassId
  | .ref c => some c
  | .array _ => none

/-- Whether the type is an array type. -/
def isArray : Ty → Bool
  | .ref _ => false
  | .array _ => true

/-- The class identifier, with a pair of brackets for each dimension. -/
def text : Ty → String
  | .ref c => c.text
  | .array elem => elem.text ++ "[]"

end Ty

/-- A method name with its descriptor. Methods of related classes override each other exactly when
their subsignatures are equal. -/
structure Subsignature where
  text : String
deriving DecidableEq, Repr, Ord

/-- The method name in a subsignature: what stands between the last space before the first opening
parenthesis and that parenthesis. -/
def Subsignature.methodName (s : Subsignature) : String :=
  let head := s.text.toList.takeWhile (· ≠ '(')
  String.ofList (head.reverse.takeWhile (· ≠ ' ')).reverse

/-- A method as a call site names it. -/
structure MethodRef where
  /-- The class that the call site names. -/
  owner : ClassId
  subsignature : Subsignature
deriving DecidableEq, Repr

/-- The class and the subsignature in angle brackets. -/
def MethodRef.text (r : MethodRef) : String :=
  "<" ++ r.owner.text ++ ": " ++ r.subsignature.text ++ ">"

/-! ## Statements and calls -/

/-- The field operand of a load or a store. -/
inductive FieldAccess where
  /-- A static field. -/
  | global (field : FieldId)
  /-- A field of the object that a variable holds. -/
  | member (base : VarId) (field : FieldId)
deriving DecidableEq, Repr

namespace FieldAccess

/-- The field that is read or written. -/
def field : FieldAccess → FieldId
  | .global f => f
  | .member _ f => f

/-- Whether the field is static. -/
def isStatic : FieldAccess → Bool
  | .global _ => true
  | .member _ _ => false

end FieldAccess

/-- A statement of a method body. -/
inductive Stmt where
  /-- An allocation. -/
  | new (lhs : VarId) (ty : Ty)
  /-- An assignment between variables. -/
  | copy (lhs rhs : VarId)
  /-- A field read. -/
  | loadField (lhs : VarId) (access : FieldAccess)
  /-- A field write. -/
  | storeField (access : FieldAccess) (rhs : VarId)
  /-- An array read; the index does not matter. -/
  | loadArray (lhs base : VarId)
  /-- An array write; the index does not matter. -/
  | storeArray (base rhs : VarId)
  /-- A call, described by the entry of the call table. -/
  | invoke (call : InvokeId)
  /-- A return, with the returned variable if there is one. -/
  | ret (value : Option VarId)
  /-- A statement that moves no reference. -/
  | nop
deriving DecidableEq, Repr

/-- The call that a statement makes. -/
def Stmt.call? : Stmt → Option InvokeId
  | .invoke i => some i
  | _ => none

/-- How a call finds its target. -/
inductive CallKind where
  /-- The target is named by the call. -/
  | static
  /-- The target is found from the named class, whatever the receiver is. -/
  | special
  /-- The target is found from the class of the receiver object. -/
  | virtual
  /-- As `virtual`, for a method of an interface. -/
  | interface
deriving DecidableEq, Repr, Ord

namespace CallKind

/-- The name of the kind. -/
def text : CallKind → String
  | .static => "static"
  | .special => "special"
  | .virtual => "virtual"
  | .interface => "interface"

/-- Whether the target hangs on the receiver object. -/
def isDynamic : CallKind → Bool
  | .static | .special => false
  | .virtual | .interface => true

end CallKind

/-- A call site. -/
structure Invoke where
  kind : CallKind
  target : MethodRef
  /-- The variable that the method is called on; none for a static call. -/
  receiver : Option VarId
  args : List VarId
  /-- The variable that takes the returned value. -/
  result : Option VarId
  /-- The method whose body has the call. -/
  container : MethodId
  /-- The position of the call in that body. -/
  position : Nat
deriving DecidableEq, Repr

/-! ## Declarations -/

/-- A class or an interface. -/
structure ClassDecl where
  name : String
  superclass : Option ClassId
  /-- The interfaces that a class implements or an interface extends. -/
  interfaces : List ClassId
  isInterface : Bool
  isAbstract : Bool
  /-- The declared methods by subsignature. -/
  methods : List (Subsignature × MethodId)
  fields : List FieldId
deriving DecidableEq, Repr

namespace ClassDecl

/-- The method that the class itself declares for a subsignature. -/
def method? (c : ClassDecl) (s : Subsignature) : Option MethodId :=
  c.methods.lookup s

/-- The superclass, then the interfaces. -/
def supertypes (c : ClassDecl) : List ClassId :=
  c.superclass.toList ++ c.interfaces

end ClassDecl

/-- A field. -/
structure FieldDecl where
  name : String
  owner : ClassId
  isStatic : Bool
deriving DecidableEq, Repr

/-- A method. -/
structure Method where
  name : String
  owner : ClassId
  subsignature : Subsignature
  isStatic : Bool
  isAbstract : Bool
  /-- The variable that holds the receiver; every method that is not static has one. -/
  receiver : Option VarId
  params : List VarId
  /-- The variables that the body returns. -/
  returned : List VarId
  body : Array Stmt
deriving DecidableEq, Repr

/-- The statements that have a variable as their base or receiver, as the other operands of each. -/
structure Uses where
  /-- Field and written variable of each field write. -/
  storeFields : List (FieldId × VarId)
  /-- Field and assigned variable of each field read. -/
  loadFields : List (FieldId × VarId)
  /-- Written variable of each array write. -/
  storeArrays : List VarId
  /-- Assigned variable of each array read. -/
  loadArrays : List VarId
  /-- The calls on the variable. -/
  invokes : List InvokeId
deriving DecidableEq, Repr

namespace Uses

/-- No uses. -/
def none : Uses := ⟨[], [], [], [], []⟩

/-- Whether there are no uses. -/
def isEmpty (u : Uses) : Bool :=
  u.storeFields.isEmpty && u.loadFields.isEmpty && u.storeArrays.isEmpty && u.loadArrays.isEmpty &&
    u.invokes.isEmpty

end Uses

/-- A variable. -/
structure Var where
  name : String
  /-- The method that the variable belongs to. -/
  method : MethodId
  uses : Uses
deriving DecidableEq, Repr

/-- A whole program. -/
structure Program where
  classes : Array ClassDecl
  fields : Array FieldDecl
  methods : Array Method
  vars : Array Var
  invokes : Array Invoke
  /-- The methods that a run of the program starts from. -/
  entries : List MethodId
  /-- The class on which calls to array objects dispatch. -/
  objectClass : Option ClassId
deriving DecidableEq, Repr

namespace Program

/-- The program without declarations. -/
def empty : Program := ⟨#[], #[], #[], #[], #[], [], none⟩

/-! ## Look-up by identifier -/

/-- The class that an identifier names. -/
def classAt (p : Program) (c : ClassId) : Except OutOfRange ClassDecl :=
  fetch p.classes c

/-- The field that an identifier names. -/
def fieldAt (p : Program) (f : FieldId) : Except OutOfRange FieldDecl :=
  fetch p.fields f

/-- The method that an identifier names. -/
def methodAt (p : Program) (m : MethodId) : Except OutOfRange Method :=
  fetch p.methods m

/-- The variable that an identifier names. -/
def varAt (p : Program) (v : VarId) : Except OutOfRange Var :=
  fetch p.vars v

/-- The call site that an identifier names. -/
def invokeAt (p : Program) (i : InvokeId) : Except OutOfRange Invoke :=
  fetch p.invokes i

/-- The calls in a method's body, in statement order. -/
def invokesIn (p : Program) (m : MethodId) : Except OutOfRange (List InvokeId) := do
  return (← p.methodAt m).body.toList.filterMap Stmt.call?

/-! ## Names for messages -/

/-- Class and method name with a dot between them. -/
def methodName (p : Program) (m : MethodId) : Except OutOfRange String := do
  let method ← p.methodAt m
  return (← p.classAt method.owner).name ++ "." ++ method.name

/-- The name of a variable after that of its method. -/
def varName (p : Program) (v : VarId) : Except OutOfRange String := do
  let var ← p.varAt v
  return (← p.methodName var.method) ++ "/" ++ var.name

/-- The class name of a type, with a pair of brackets for each dimension. -/
def typeName (p : Program) : Ty → Except OutOfRange String
  | .ref c => return (← p.classAt c).name
  | .array elem => return (← p.typeName elem) ++ "[]"

/-! ## Look-up by name -/

/-- The first class of a name. -/
def findClass? (p : Program) (name : String) : Option ClassId :=
  (p.classes.findIdx? (·.name = name)).map Id.mk

/-- The method that the first class of a name declares for a subsignature. -/
def findMethod? (p : Program) (className : String) (s : Subsignature) : Option MethodId := do
  let c ← p.classes.find? (·.name = className)
  c.method? s

/-- The first of some fields that has a name. -/
def fieldNamed? (p : Program) (name : String) : List FieldId → Except OutOfRange (Option FieldId)
  | [] => return none
  | f :: rest => do
    if (← p.fieldAt f).name = name then return some f
    p.fieldNamed? name rest

/-- The first field of a name in the first class of a name. -/
def findField? (p : Program) (className fieldName : String) :
    Except OutOfRange (Option FieldId) :=
  match p.classes.find? (·.name = className) with
  | some c => p.fieldNamed? fieldName c.fields
  | none => return none

/-- The first variable of a name in a method. -/
def findVar? (p : Program) (m : MethodId) (name : String) : Option VarId :=
  (p.vars.findIdx? fun v => v.method = m ∧ v.name = name).map Id.mk

end Program

end PointsTo
