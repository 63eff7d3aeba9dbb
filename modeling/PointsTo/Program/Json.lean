import PointsTo.Json.Form
import PointsTo.Program.Basic

/-!
# Programs as JSON

The JSON forms of programs and their parts. Identifiers are bare numbers of 32 bits; a statement is
an object whose one member has the kind of the statement as its name. A program that is read this
way has not been checked.
-/

namespace PointsTo

instance {e : Entity} : JsonForm (Id e) where
  toJson i := .nat i.index
  ofJson? j := (j.natBelow? idLimit).map Id.mk

instance : JsonForm Subsignature where
  toJson s := .string s.text
  ofJson? j := (ofJson? j).map Subsignature.mk

/-! ## Types, statements and calls -/

namespace Ty

/-- The JSON form of a type. -/
protected def toJson : Ty → Json
  | .ref c => .object [("Class", PointsTo.toJson c)]
  | .array elem => .object [("Array", elem.toJson)]

/-- Reads the JSON form of a type. -/
protected def ofJson? : Json → Option Ty
  | .object [(tag, payload)] =>
    if tag = "Class" then (PointsTo.ofJson? payload).map Ty.ref
    else if tag = "Array" then payload |> Ty.ofJson? |>.map Ty.array
    else none
  | _ => none

instance : JsonForm Ty := ⟨Ty.toJson, Ty.ofJson?⟩

end Ty

instance : JsonForm MethodRef where
  toJson r := .object [("class", toJson r.owner), ("subsignature", toJson r.subsignature)]
  ofJson? j := do
    let [owner, subsignature] ← j.fields? ["class", "subsignature"] | none
    return ⟨← required owner, ← required subsignature⟩

instance : JsonForm FieldAccess where
  toJson
    | .global field => .object [("Static", toJson field)]
    | .member base field =>
      .object [("Instance", .object [("base", toJson base), ("field", toJson field)])]
  ofJson? j := do
    match ← j.tagged? with
    | ("Static", some payload) => return .global (← ofJson? payload)
    | ("Instance", some payload) => ofMembers? "base" "field" .member payload
    | _ => none

namespace Stmt

/-- The JSON form of a statement. -/
protected def toJson : Stmt → Json
  | .new lhs ty =>
    .object [("New", .object [("lhs", PointsTo.toJson lhs), ("ty", PointsTo.toJson ty)])]
  | .copy lhs rhs =>
    .object [("Copy", .object [("lhs", PointsTo.toJson lhs), ("rhs", PointsTo.toJson rhs)])]
  | .loadField lhs access =>
    .object [("LoadField",
      .object [("lhs", PointsTo.toJson lhs), ("access", PointsTo.toJson access)])]
  | .storeField access rhs =>
    .object [("StoreField",
      .object [("access", PointsTo.toJson access), ("rhs", PointsTo.toJson rhs)])]
  | .loadArray lhs base =>
    .object [("LoadArray", .object [("lhs", PointsTo.toJson lhs), ("base", PointsTo.toJson base)])]
  | .storeArray base rhs =>
    .object [("StoreArray", .object [("base", PointsTo.toJson base), ("rhs", PointsTo.toJson rhs)])]
  | .invoke call => .object [("Invoke", PointsTo.toJson call)]
  | .ret value => .object [("Return", PointsTo.toJson value)]
  | .nop => .string "Nop"

/-- Reads the JSON form of a statement. -/
protected def ofJson? (j : Json) : Option Stmt := do
  match ← j.tagged? with
  | ("New", some payload) => ofMembers? "lhs" "ty" .new payload
  | ("Copy", some payload) => ofMembers? "lhs" "rhs" .copy payload
  | ("LoadField", some payload) => ofMembers? "lhs" "access" .loadField payload
  | ("StoreField", some payload) => ofMembers? "access" "rhs" .storeField payload
  | ("LoadArray", some payload) => ofMembers? "lhs" "base" .loadArray payload
  | ("StoreArray", some payload) => ofMembers? "base" "rhs" .storeArray payload
  | ("Invoke", some payload) => return .invoke (← PointsTo.ofJson? payload)
  | ("Return", some payload) => return .ret (← PointsTo.ofJson? payload)
  | _ => if j.tag? = some "Nop" then return .nop else none

instance : JsonForm Stmt := ⟨Stmt.toJson, Stmt.ofJson?⟩

end Stmt

instance : JsonForm CallKind where
  toJson k := .string k.text
  ofJson? j := do
    match ← j.tag? with
    | "static" => return .static
    | "special" => return .special
    | "virtual" => return .virtual
    | "interface" => return .interface
    | _ => none

instance : JsonForm Invoke where
  toJson i := .object [("kind", toJson i.kind), ("method_ref", toJson i.target),
    ("receiver", toJson i.receiver), ("args", toJson i.args), ("result", toJson i.result),
    ("container", toJson i.container), ("index", .nat i.position)]
  ofJson? j := do
    let [kind, target, receiver, args, result, container, position] ← j.fields?
      ["kind", "method_ref", "receiver", "args", "result", "container", "index"] | none
    return ⟨← required kind, ← required target, ← optional receiver, ← required args,
      ← optional result, ← required container, ← requiredWord position⟩

/-! ## Declarations -/

/-- The JSON form of a method table: an object with the subsignatures as names. -/
def methodTableToJson (methods : List (Subsignature × MethodId)) : Json :=
  .object (methods.map fun (s, m) => (s.text, toJson m))

/-- Reads the JSON form of a method table. -/
def methodTableOfJson? : Json → Option (List (Subsignature × MethodId))
  | .object members => members.mapM fun (s, j) => return (⟨s⟩, ← ofJson? j)
  | _ => none

instance : JsonForm ClassDecl where
  toJson c := .object [("name", toJson c.name), ("super_class", toJson c.superclass),
    ("interfaces", toJson c.interfaces), ("is_interface", toJson c.isInterface),
    ("is_abstract", toJson c.isAbstract), ("methods", methodTableToJson c.methods),
    ("fields", toJson c.fields)]
  ofJson? j := do
    let [name, superclass, interfaces, isInterface, isAbstract, methods, fields] ← j.fields?
      ["name", "super_class", "interfaces", "is_interface", "is_abstract", "methods", "fields"]
      | none
    return ⟨← required name, ← optional superclass, ← required interfaces, ← required isInterface,
      ← required isAbstract, ← methods.bind methodTableOfJson?, ← required fields⟩

instance : JsonForm FieldDecl where
  toJson f := .object [("name", toJson f.name), ("class", toJson f.owner),
    ("is_static", toJson f.isStatic)]
  ofJson? j := do
    let [name, owner, isStatic] ← j.fields? ["name", "class", "is_static"] | none
    return ⟨← required name, ← required owner, ← required isStatic⟩

instance : JsonForm Method where
  toJson m := .object [("name", toJson m.name), ("class", toJson m.owner),
    ("subsignature", toJson m.subsignature), ("is_static", toJson m.isStatic),
    ("is_abstract", toJson m.isAbstract), ("this", toJson m.receiver),
    ("params", toJson m.params), ("return_vars", toJson m.returned), ("stmts", toJson m.body)]
  ofJson? j := do
    let [name, owner, subsignature, isStatic, isAbstract, receiver, params, returned, body] ←
      j.fields? ["name", "class", "subsignature", "is_static", "is_abstract", "this", "params",
        "return_vars", "stmts"] | none
    return ⟨← required name, ← required owner, ← required subsignature, ← required isStatic,
      ← required isAbstract, ← optional receiver, ← required params, ← required returned,
      ← required body⟩

instance : JsonForm Uses where
  toJson u := .object [("store_fields", toJson u.storeFields), ("load_fields", toJson u.loadFields),
    ("store_arrays", toJson u.storeArrays), ("load_arrays", toJson u.loadArrays),
    ("invokes", toJson u.invokes)]
  ofJson? j := do
    let [storeFields, loadFields, storeArrays, loadArrays, invokes] ← j.fields?
      ["store_fields", "load_fields", "store_arrays", "load_arrays", "invokes"] | none
    return ⟨← required storeFields, ← required loadFields, ← required storeArrays,
      ← required loadArrays, ← required invokes⟩

instance : JsonForm Var where
  toJson v := .object [("name", toJson v.name), ("method", toJson v.method), ("uses", toJson v.uses)]
  ofJson? j := do
    let [name, method, uses] ← j.fields? ["name", "method", "uses"] | none
    return ⟨← required name, ← required method, ← required uses⟩

instance : JsonForm Program where
  toJson p := .object [("classes", toJson p.classes), ("fields", toJson p.fields),
    ("methods", toJson p.methods), ("vars", toJson p.vars), ("invokes", toJson p.invokes),
    ("entry_methods", toJson p.entries), ("object_class", toJson p.objectClass)]
  ofJson? j := do
    let [classes, fields, methods, vars, invokes, entries, objectClass] ← j.fields?
      ["classes", "fields", "methods", "vars", "invokes", "entry_methods", "object_class"] | none
    return ⟨← required classes, ← required fields, ← required methods, ← required vars,
      ← required invokes, ← required entries, ← optional objectClass⟩

end PointsTo
