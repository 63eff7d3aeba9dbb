import PointsTo.Distinct
import PointsTo.Program.Acyclic
import PointsTo.Program.Draft

/-!
# Finished programs

`Draft.build` checks a draft and turns it into a program. A program that passes refers to declared
entities only, has no class among its own supertypes, and its statements use variables of their own
method. The build then indexes, for every variable, the statements that have it as base or receiver,
and for every method the variables it returns.
-/

namespace PointsTo

/-! ## What can be wrong with a draft -/

/-- What a class or field is referred to from. -/
inductive Referrer where
  | classNamed (name : String)
  | methodNamed (name : String)
  | objectClass
deriving DecidableEq, Repr

/-- The name of what refers. -/
def Referrer.text : Referrer → String
  | .classNamed name => name
  | .methodNamed name => name
  | .objectClass => "set_object_class"

/-- Why a draft is not a program. Methods are given by their names. -/
inductive ProgramError where
  | undeclaredClass (c : ClassId) (referrer : Referrer)
  | undeclaredField (f : FieldId) (referrer : Referrer)
  | cyclicInheritance (name : String)
  | abstractBody (method : String)
  | foreignInvoke (i : InvokeId) (method : String)
  | foreignVar (method : String) (v : VarId)
  | receiverMismatch (i : InvokeId) (method : String) (kind : CallKind) (receiver : Option VarId)
  | undeclaredEntry (m : MethodId)
deriving DecidableEq, Repr

/-- A call kind as messages about receivers show it. -/
def CallKind.title : CallKind → String
  | .static => "Static"
  | .special => "Special"
  | .virtual => "Virtual"
  | .interface => "Interface"

/-- A receiver as messages about receivers show it. -/
def receiverTitle : Option VarId → String
  | none => "None"
  | some v => "Some(VarId(" ++ toString v.index ++ "))"

namespace ProgramError

/-- What is wrong, in words. -/
def detail : ProgramError → String
  | undeclaredClass c r => c.text ++ " referenced by " ++ r.text ++ " is not declared"
  | undeclaredField f r => f.text ++ " referenced by " ++ r.text ++ " is not declared"
  | cyclicInheritance name => "cyclic inheritance: " ++ name ++ " is its own supertype"
  | abstractBody method => "abstract method " ++ method ++ " has a body"
  | foreignInvoke i method => i.text ++ " in " ++ method ++ " was not created by this builder"
  | foreignVar method v => method ++ " uses " ++ v.text ++ " which belongs to another method"
  | receiverMismatch i method kind receiver =>
    i.text ++ " in " ++ method ++ " has " ++ kind.title ++ " kind but receiver " ++
      receiverTitle receiver
  | undeclaredEntry m => "entry " ++ m.text ++ " is not declared"

/-- The whole message. -/
def message (e : ProgramError) : String :=
  "Invalid program: " ++ e.detail

end ProgramError

/-! ## The variables of a statement -/

/-- The variables that a call mentions. -/
def Invoke.vars (i : Invoke) : List VarId :=
  i.receiver.toList ++ i.args ++ i.result.toList

/-- The variables that a statement mentions. -/
def Stmt.vars (p : Program) : Stmt → Except OutOfRange (List VarId)
  | .new lhs _ => .ok [lhs]
  | .copy lhs rhs => .ok [lhs, rhs]
  | .loadField lhs (.global _) => .ok [lhs]
  | .loadField lhs (.member base _) => .ok [lhs, base]
  | .storeField (.global _) rhs => .ok [rhs]
  | .storeField (.member base _) rhs => .ok [base, rhs]
  | .loadArray lhs base => .ok [lhs, base]
  | .storeArray base rhs => .ok [base, rhs]
  | .invoke i => return (← p.invokeAt i).vars
  | .ret v => .ok v.toList
  | .nop => .ok []

/-! ## Checks -/

/-- A check passes or fails with its reason. -/
abbrev Check := Except (Fault ProgramError)

/-- Fails for a reason. -/
def reject {α : Type} (e : ProgramError) : Check α :=
  .error (.failed e)

namespace Program

/-- Whether an identifier names a class. -/
def hasClass (p : Program) (c : ClassId) : Bool :=
  c.index < p.classes.size

/-- Whether an identifier names a variable of a method. -/
def ownsVar (p : Program) (m : MethodId) (v : VarId) : Bool :=
  match p.vars[v.index]? with
  | some var => var.method = m
  | none => false

/-- Whether an identifier names a call of a method. -/
def ownsInvoke (p : Program) (m : MethodId) (i : InvokeId) : Bool :=
  match p.invokes[i.index]? with
  | some call => call.container = m
  | none => false

/-- A class has to be declared. -/
def checkClass (p : Program) (r : Referrer) (c : ClassId) : Check Unit :=
  if p.hasClass c then .ok () else reject (.undeclaredClass c r)

/-- The class of a type has to be declared. -/
def checkType (p : Program) (r : Referrer) : Ty → Check Unit
  | .ref c => p.checkClass r c
  | .array elem => p.checkType r elem

/-- A field has to be declared. -/
def checkField (p : Program) (r : Referrer) (f : FieldId) : Check Unit :=
  if f.index < p.fields.size then .ok () else reject (.undeclaredField f r)

/-- Every supertype and the object class have to be declared, and no class may be among its own
supertypes. -/
def checkClasses (p : Program) : Check Unit := do
  p.classes.toList.forM fun c => c.supertypes.forM (p.checkClass (.classNamed c.name))
  p.objectClass.toList.forM (p.checkClass .objectClass)
  match p.cyclicClass? with
  | some c => reject (.cyclicInheritance (← p.classAt c).name)
  | none => return

/-- The named class of a call has to be declared, and the call has to have a receiver exactly when
it is not static. -/
def checkInvoke (p : Program) (method : String) (i : InvokeId) : Check Unit := do
  let call ← p.invokeAt i
  p.checkClass (.methodNamed method) call.target.owner
  if (call.kind = .static) ≠ (call.receiver = none) then
    reject (.receiverMismatch i method call.kind call.receiver)

/-- A call has to belong to the method it stands in. -/
def checkCaller (p : Program) (m : MethodId) (method : String) : Stmt → Check Unit
  | .invoke i => if p.ownsInvoke m i then .ok () else reject (.foreignInvoke i method)
  | _ => .ok ()

/-- A variable has to belong to the method that uses it. -/
def checkVar (p : Program) (m : MethodId) (method : String) (v : VarId) : Check Unit :=
  if p.ownsVar m v then .ok () else reject (.foreignVar method v)

/-- The type, field or call of a statement has to pass its check. -/
def checkOperand (p : Program) (method : String) : Stmt → Check Unit
  | .new _ ty => p.checkType (.methodNamed method) ty
  | .loadField _ access | .storeField access _ =>
    p.checkField (.methodNamed method) access.field
  | .invoke i => p.checkInvoke method i
  | _ => .ok ()

/-- A statement uses calls and variables of its own method, and what it refers to is declared. -/
def checkStmt (p : Program) (m : MethodId) (method : String) (s : Stmt) : Check Unit := do
  p.checkCaller m method s
  (← s.vars p).forM (p.checkVar m method)
  p.checkOperand method s

/-- An abstract method has no body; the statements of a body pass their own checks. -/
def checkMethod (p : Program) (m : MethodId) (method : Method) : Check Unit := do
  let name ← p.methodName m
  if method.isAbstract && !method.body.isEmpty then reject (.abstractBody name)
  method.body.toList.forM (p.checkStmt m name)

/-- The identifiers of the methods. -/
def methodIds (p : Program) : List MethodId :=
  (List.range p.methods.size).map Id.mk

/-- Entries have to be declared. -/
def checkEntry (p : Program) (m : MethodId) : Check Unit :=
  if m.index < p.methods.size then .ok () else reject (.undeclaredEntry m)

/-- All checks, in the order in which their errors win. -/
def check (p : Program) : Check Unit := do
  p.checkClasses
  p.methodIds.forM fun m => do p.checkMethod m (← p.methodAt m)
  p.entries.forM p.checkEntry

end Program

/-! ## Indexes -/

/-- One statement seen from its base or receiver. -/
inductive Use where
  | storeField (field : FieldId) (rhs : VarId)
  | loadField (field : FieldId) (lhs : VarId)
  | storeArray (rhs : VarId)
  | loadArray (lhs : VarId)
  | invoke (i : InvokeId)
deriving DecidableEq, Repr

/-- The variable that a statement has as base or receiver, and the statement seen from it. -/
def Stmt.use? (invokes : Array Invoke) : Stmt → Option (VarId × Use)
  | .storeField (.member base field) rhs => some (base, .storeField field rhs)
  | .loadField lhs (.member base field) => some (base, .loadField field lhs)
  | .storeArray base rhs => some (base, .storeArray rhs)
  | .loadArray lhs base => some (base, .loadArray lhs)
  | .invoke i => do
    let call ← invokes[i.index]?
    return (← call.receiver, .invoke i)
  | _ => none

/-- Records a use after the earlier ones. -/
def Uses.add (u : Uses) : Use → Uses
  | .storeField field rhs => { u with storeFields := u.storeFields ++ [(field, rhs)] }
  | .loadField field lhs => { u with loadFields := u.loadFields ++ [(field, lhs)] }
  | .storeArray rhs => { u with storeArrays := u.storeArrays ++ [rhs] }
  | .loadArray lhs => { u with loadArrays := u.loadArrays ++ [lhs] }
  | .invoke i => { u with invokes := u.invokes ++ [i] }

/-- The variable that a statement returns. -/
def Stmt.returned? : Stmt → Option VarId
  | .ret v => v
  | _ => none

namespace Program

/-- Records the use that a statement makes of its base or receiver. -/
def indexStmt (invokes : Array Invoke) (vars : Array Var) (s : Stmt) : Array Var :=
  match s.use? invokes with
  | some (v, use) => vars.modify v.index fun var => { var with uses := var.uses.add use }
  | none => vars

/-- Records uses and returned variables, in statement order. -/
def indexed (p : Program) : Program :=
  let unused := p.vars.map fun var => { var with uses := .none }
  let body := p.methods.toList.flatMap (·.body.toList)
  { p with
    vars := body.foldl (indexStmt p.invokes) unused
    methods := p.methods.map fun method =>
      { method with returned := distinct (method.body.toList.filterMap Stmt.returned?) } }

end Program

/-- The program of a draft that passes the checks. -/
def Draft.build (d : Draft) : Check Program := do
  d.program.check
  return d.program.indexed

end PointsTo
