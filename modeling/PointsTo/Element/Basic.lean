import PointsTo.Context.Basic
import PointsTo.Heap

/-!
# Elements under contexts

Objects, methods and call sites together with a context, and the locations that own points-to sets.
-/

namespace PointsTo

/-- An object under a heap context. -/
structure CsObj where
  context : ContextId
  obj : ObjId
deriving DecidableEq, Repr

/-- A method under a calling context. -/
structure CsMethod where
  context : ContextId
  method : MethodId
deriving DecidableEq, Repr

/-- A call site under the context of its method. -/
structure CsCallSite where
  context : ContextId
  invoke : InvokeId
deriving DecidableEq, Repr

instance : Keyed CsObj where
  code o := [o.context.index, o.obj.index]
  code_injective := by
    rintro ⟨⟨c⟩, ⟨i⟩⟩ ⟨⟨c'⟩, ⟨i'⟩⟩ same
    simp_all

instance : Keyed CsMethod where
  code m := [m.context.index, m.method.index]
  code_injective := by
    rintro ⟨⟨c⟩, ⟨i⟩⟩ ⟨⟨c'⟩, ⟨i'⟩⟩ same
    simp_all

instance : Keyed CsCallSite where
  code s := [s.context.index, s.invoke.index]
  code_injective := by
    rintro ⟨⟨c⟩, ⟨i⟩⟩ ⟨⟨c'⟩, ⟨i'⟩⟩ same
    simp_all

/-- A location that owns a points-to set. A field of an object is one location, whatever the context
of the method that reads or writes it. -/
inductive PointerKey where
  /-- A variable under a context. -/
  | var (context : ContextId) (var : VarId)
  | staticField (field : FieldId)
  | instanceField (base : CsObjId) (field : FieldId)
  /-- All elements of an array object. -/
  | arrayIndex (base : CsObjId)
deriving DecidableEq, Repr

namespace PointerKey

/-- Whether the location is a variable. -/
def isVar : PointerKey → Bool
  | .var _ _ => true
  | _ => false

/-- The identifiers in a location, in the notation of an access. -/
def text : PointerKey → String
  | .var c v => c.text ++ ":" ++ v.text
  | .staticField f => "static " ++ f.text
  | .instanceField o f => o.text ++ "." ++ f.text
  | .arrayIndex o => o.text ++ "[*]"

end PointerKey

instance : Keyed PointerKey where
  code
    | .var c v => [0, c.index, v.index]
    | .staticField f => [1, f.index]
    | .instanceField o f => [2, o.index, f.index]
    | .arrayIndex o => [3, o.index]
  code_injective := by
    rintro (⟨⟨_⟩, ⟨_⟩⟩ | ⟨⟨_⟩⟩ | ⟨⟨_⟩, ⟨_⟩⟩ | ⟨⟨_⟩⟩) (⟨⟨_⟩, ⟨_⟩⟩ | ⟨⟨_⟩⟩ | ⟨⟨_⟩, ⟨_⟩⟩ | ⟨⟨_⟩⟩) same <;>
      simp_all

end PointsTo
