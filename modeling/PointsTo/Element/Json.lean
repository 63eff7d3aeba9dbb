import PointsTo.CallGraph.Basic
import PointsTo.Element.Basic
import PointsTo.IdSet
import PointsTo.Program.Json

/-!
# Elements as JSON

The JSON forms of context elements, abstract objects, locations, points-to sets and call edges.
-/

namespace PointsTo

instance : JsonForm ContextElement where
  toJson
    | .callSite i => .object [("CallSite", toJson i)]
    | .object o => .object [("Object", toJson o)]
    | .type c => .object [("Type", toJson c)]
  ofJson? j := do
    match ← j.tagged? with
    | ("CallSite", some payload) => return .callSite (← ofJson? payload)
    | ("Object", some payload) => return .object (← ofJson? payload)
    | ("Type", some payload) => return .type (← ofJson? payload)
    | _ => none

instance : JsonForm AllocSite where
  toJson s := .object [("method", toJson s.method), ("index", .nat s.position)]
  ofJson? j := do
    let [method, position] ← j.fields? ["method", "index"] | none
    return ⟨← required method, ← requiredWord position⟩

instance : JsonForm Obj where
  toJson o := .object [("id", toJson o.id), ("site", toJson o.site), ("ty", toJson o.ty),
    ("container_class", toJson o.containerClass)]
  ofJson? j := do
    let [id, site, ty, containerClass] ← j.fields? ["id", "site", "ty", "container_class"] | none
    return ⟨← required id, ← required site, ← required ty, ← required containerClass⟩

instance : JsonForm PointerKey where
  toJson
    | .var c v => .object [("Var", .object [("context", toJson c), ("var", toJson v)])]
    | .staticField f => .object [("StaticField", toJson f)]
    | .instanceField o f =>
      .object [("InstanceField", .object [("base", toJson o), ("field", toJson f)])]
    | .arrayIndex o => .object [("ArrayIndex", toJson o)]
  ofJson? j := do
    match ← j.tagged? with
    | ("Var", some payload) => ofMembers? "context" "var" .var payload
    | ("StaticField", some payload) => return .staticField (← ofJson? payload)
    | ("InstanceField", some payload) => ofMembers? "base" "field" .instanceField payload
    | ("ArrayIndex", some payload) => return .arrayIndex (← ofJson? payload)
    | _ => none

/-- The JSON form of a set of identifiers: an object with the ascending list of them. -/
instance {e : Entity} : JsonForm (IdSet e) where
  toJson s := .object [("elements", toJson s.toList)]
  ofJson? j := do
    let [elements] ← j.fields? ["elements"] | none
    return IdSet.ofList (← required elements)

instance {s m : Entity} : JsonForm (CallEdge s m) where
  toJson e := .object [("kind", toJson e.kind), ("call_site", toJson e.site),
    ("callee", toJson e.callee)]
  ofJson? j := do
    let [kind, site, callee] ← j.fields? ["kind", "call_site", "callee"] | none
    return ⟨← required kind, ← required site, ← required callee⟩

end PointsTo
