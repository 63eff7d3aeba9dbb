import PointsTo.Distinct
import PointsTo.Keyed
import PointsTo.Program.Basic

/-!
# Drafts

A front end declares a program piece by piece. A draft is what has been declared so far; each
declaration gives back the identifier of what it adds. Only an identifier that has to be followed
at once is looked up at once: everything else is checked when the draft is finished.
-/

namespace PointsTo

/-- A variable as a front end asks for it. -/
structure VarName where
  method : MethodId
  name : String
deriving DecidableEq, Repr

private theorem map_toNat_injective {l l' : List Char}
    (h : l.map Char.toNat = l'.map Char.toNat) : l = l' := by
  refine List.map_inj_right (f := Char.toNat) ?_ |>.1 h
  intro c d same
  exact Char.ext (UInt32.toNat_inj.1 same)

instance : Keyed VarName where
  code v := v.method.index :: v.name.toList.map Char.toNat
  code_injective := by
    rintro ⟨⟨m⟩, n⟩ ⟨⟨m'⟩, n'⟩ same
    simp only [List.cons.injEq] at same
    obtain ⟨rfl, chars⟩ := same
    rw [String.toList_inj.1 (map_toNat_injective chars)]

/-- A program in the making. -/
structure Draft where
  program : Program
  /-- The latest variable of each name. -/
  names : Map VarName VarId

namespace Draft

/-- The draft without declarations. -/
def empty : Draft := ⟨.empty, ∅⟩

/-- Changes the declaration of a class. -/
def editClass (d : Draft) (c : ClassId) (edit : ClassDecl → ClassDecl) : Except OutOfRange Draft :=
  do
  let _ ← d.program.classAt c
  return { d with program.classes := d.program.classes.modify c.index edit }

/-- Changes the declaration of a method. -/
def editMethod (d : Draft) (m : MethodId) (edit : Method → Method) : Except OutOfRange Draft := do
  let _ ← d.program.methodAt m
  return { d with program.methods := d.program.methods.modify m.index edit }

/-! ## Declarations -/

/-- Declares a class or an interface. -/
def addClass (d : Draft) (c : ClassDecl) : ClassId × Draft :=
  (⟨d.program.classes.size⟩, { d with program.classes := d.program.classes.push c })

/-- Records that a class implements an interface. -/
def addImplements (d : Draft) (c iface : ClassId) : Except OutOfRange Draft :=
  d.editClass c fun decl => { decl with interfaces := addNew decl.interfaces iface }

/-- Declares a field. -/
def addField (d : Draft) (f : FieldDecl) : Except OutOfRange (FieldId × Draft) := do
  let id : FieldId := ⟨d.program.fields.size⟩
  let d := { d with program.fields := d.program.fields.push f }
  return (id, ← d.editClass f.owner fun decl => { decl with fields := decl.fields ++ [id] })

/-- Adds a variable, whether or not its method has one of its name. -/
def pushVar (d : Draft) (v : VarName) : VarId × Draft :=
  let id : VarId := ⟨d.program.vars.size⟩
  (id, { d with
    program.vars := d.program.vars.push ⟨v.name, v.method, .none⟩
    names := d.names.insert v id })

/-- Adds a parameter for each name. -/
def pushParams (d : Draft) (m : MethodId) : List String → List VarId × Draft
  | [] => ([], d)
  | name :: rest =>
    let (v, d) := d.pushVar ⟨m, name⟩
    let (vs, d) := d.pushParams m rest
    (v :: vs, d)

/-- The entry of a method table for a subsignature, new or instead of the present one. -/
def setMethod (s : Subsignature) (m : MethodId) :
    List (Subsignature × MethodId) → List (Subsignature × MethodId)
  | [] => [(s, m)]
  | (t, n) :: rest => if t = s then (s, m) :: rest else (t, n) :: setMethod s m rest

/-- Declares a method. One that is not static gets a variable for its receiver. -/
def addMethod (d : Draft) (c : ClassId) (s : Subsignature) (isStatic isAbstract : Bool)
    (params : List String) : Except OutOfRange (MethodId × Draft) := do
  let id : MethodId := ⟨d.program.methods.size⟩
  let (receiver, d) :=
    if isStatic then (none, d)
    else
      let (v, d) := d.pushVar ⟨id, "this"⟩
      (some v, d)
  let (params, d) := d.pushParams id params
  let method : Method := ⟨s.methodName, c, s, isStatic, isAbstract, receiver, params, [], #[]⟩
  let d := { d with program.methods := d.program.methods.push method }
  return (id, ← d.editClass c fun decl => { decl with methods := setMethod s id decl.methods })

/-- Makes a method an entry of the program. -/
def addEntry (d : Draft) (m : MethodId) : Draft :=
  { d with program.entries := addNew d.program.entries m }

/-- The latest variable of a name in a method, added if there is none. -/
def var (d : Draft) (v : VarName) : VarId × Draft :=
  match d.names[v]? with
  | some id => (id, d)
  | none => d.pushVar v

/-- Adds a statement at the end of a method body. -/
def addStmt (d : Draft) (m : MethodId) (s : Stmt) : Except OutOfRange Draft :=
  d.editMethod m fun method => { method with body := method.body.push s }

/-- Adds a call at the end of a method body. -/
def addInvoke (d : Draft) (m : MethodId) (kind : CallKind) (target : MethodRef)
    (receiver : Option VarId) (args : List VarId) (result : Option VarId) :
    Except OutOfRange (InvokeId × Draft) := do
  let id : InvokeId := ⟨d.program.invokes.size⟩
  let position := (← d.program.methodAt m).body.size
  let call : Invoke := ⟨kind, target, receiver, args, result, m, position⟩
  let d := { d with program.invokes := d.program.invokes.push call }
  return (id, ← d.addStmt m (.invoke id))

end Draft

/-! ## Declarations as data -/

/-- One call of a front end. -/
inductive Declaration where
  | addClass (name : String) (superclass : Option ClassId) (isAbstract : Bool)
  | addInterface (name : String) (extended : List ClassId)
  | addImplements (c iface : ClassId)
  | setObjectClass (c : ClassId)
  | addField (c : ClassId) (name : String) (isStatic : Bool)
  | addMethod (c : ClassId) (s : Subsignature) (isStatic : Bool) (params : List String)
  | addAbstractMethod (c : ClassId) (s : Subsignature) (params : List String)
  | addEntry (m : MethodId)
  | var (m : MethodId) (name : String)
  | receiver (m : MethodId)
  | param (m : MethodId) (i : Nat)
  | addStmt (m : MethodId) (s : Stmt)
  | addInvoke (m : MethodId) (kind : CallKind) (target : MethodRef) (receiver : Option VarId)
      (args : List VarId) (result : Option VarId)
deriving Repr

/-- What a declaration gives back to the front end. -/
inductive Reply where
  | done
  | classId (c : ClassId)
  | fieldId (f : FieldId)
  | methodId (m : MethodId)
  | varId (v : Option VarId)
  | invokeId (i : InvokeId)
deriving DecidableEq, Repr

/-- The number in a reply. -/
def Reply.index? : Reply → Option Nat
  | .done => none
  | .classId c => some c.index
  | .fieldId f => some f.index
  | .methodId m => some m.index
  | .varId v => v.map (·.index)
  | .invokeId i => some i.index

/-- Carries out one declaration. -/
def Draft.declare (d : Draft) : Declaration → Except OutOfRange (Reply × Draft)
  | .addClass name superclass isAbstract =>
    let (c, d) := d.addClass ⟨name, superclass, [], false, isAbstract, [], []⟩
    .ok (.classId c, d)
  | .addInterface name extended =>
    let (c, d) := d.addClass ⟨name, none, extended, true, true, [], []⟩
    .ok (.classId c, d)
  | .addImplements c iface => return (.done, ← d.addImplements c iface)
  | .setObjectClass c => .ok (.done, { d with program.objectClass := some c })
  | .addField c name isStatic => do
    let (f, d) ← d.addField ⟨name, c, isStatic⟩
    return (.fieldId f, d)
  | .addMethod c s isStatic params => do
    let (m, d) ← d.addMethod c s isStatic false params
    return (.methodId m, d)
  | .addAbstractMethod c s params => do
    let (m, d) ← d.addMethod c s false true params
    return (.methodId m, d)
  | .addEntry m => .ok (.done, d.addEntry m)
  | .var m name =>
    let (v, d) := d.var ⟨m, name⟩
    .ok (.varId (some v), d)
  | .receiver m => return (.varId (← d.program.methodAt m).receiver, d)
  | .param m i => return (.varId (← d.program.methodAt m).params[i]?, d)
  | .addStmt m s => return (.done, ← d.addStmt m s)
  | .addInvoke m kind target receiver args result => do
    let (i, d) ← d.addInvoke m kind target receiver args result
    return (.invokeId i, d)

/-- Carries out declarations one after the other, up to the first that fails. Gives the replies up
to there and the last draft, or the failure. -/
def Draft.declareAll (d : Draft) : List Declaration → List Reply × Except OutOfRange Draft
  | [] => ([], .ok d)
  | s :: rest =>
    match d.declare s with
    | .error r => ([], .error r)
    | .ok (reply, d) =>
      let (replies, final) := d.declareAll rest
      (reply :: replies, final)

end PointsTo
