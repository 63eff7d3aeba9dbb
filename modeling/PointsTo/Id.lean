/-!
# Identifiers

Everything the analysis talks about is stored in tables and named by its position there. An
identifier is a position together with the kind of thing it names, so a class cannot be confused
with a variable. `fetch` is the one way from an identifier to the entry it names.
-/

namespace PointsTo

/-- The kinds of thing that an identifier names. -/
inductive Entity where
  | classDecl
  | method
  | field
  | var
  | invoke
  | context
  | object
  | csObject
  | csMethod
  | csCallSite
  | pointer
deriving DecidableEq, Repr

/-- The word in front of the position when an identifier is shown. -/
def Entity.label : Entity → String
  | .classDecl => "class"
  | .method => "method"
  | .field => "field"
  | .var => "var"
  | .invoke => "invoke"
  | .context => "ctx"
  | .object => "obj"
  | .csObject => "csobj"
  | .csMethod => "csmethod"
  | .csCallSite => "cscallsite"
  | .pointer => "ptr"

/-- Identifiers that are written down have 32 bits. -/
def idLimit : Nat := 0x100000000

/-- Positions in method bodies, sizes and depths have 64 bits. -/
def wordLimit : Nat := 0x10000000000000000

/-- A position in the table of one kind of entity. -/
structure Id (e : Entity) where
  index : Nat
deriving DecidableEq, Repr, Ord

instance {e : Entity} : LawfulBEq (Id e) := inferInstance

/-- A class or an interface. -/
abbrev ClassId := Id .classDecl
/-- A method declaration. -/
abbrev MethodId := Id .method
/-- A field declaration. -/
abbrev FieldId := Id .field
/-- A local variable or parameter. -/
abbrev VarId := Id .var
/-- A call site. -/
abbrev InvokeId := Id .invoke
/-- An interned calling context. -/
abbrev ContextId := Id .context
/-- An abstract heap object. -/
abbrev ObjId := Id .object
/-- An object under a heap context. -/
abbrev CsObjId := Id .csObject
/-- A method under a calling context. -/
abbrev CsMethodId := Id .csMethod
/-- A call site under a calling context. -/
abbrev CsCallSiteId := Id .csCallSite
/-- A location that owns a points-to set. -/
abbrev PointerId := Id .pointer

namespace Id

variable {e : Entity}

/-- The label of the kind, a hash sign and the position. -/
def text (i : Id e) : String :=
  e.label ++ "#" ++ toString i.index

instance : ToString (Id e) := ⟨text⟩

@[ext]
theorem ext_index {i j : Id e} (h : i.index = j.index) : i = j := by
  cases i
  cases j
  simp_all

end Id

/-- A reference to an entry that its table does not have. -/
structure OutOfRange where
  entity : Entity
  index : Nat
deriving DecidableEq, Repr

/-- The entry of a table that an identifier names. -/
def fetch {e : Entity} {α : Type} (table : Array α) (i : Id e) : Except OutOfRange α :=
  match table[i.index]? with
  | some a => .ok a
  | none => .error ⟨e, i.index⟩

theorem fetch_eq_ok_iff {e : Entity} {α : Type} {table : Array α} {i : Id e} {a : α} :
    fetch table i = .ok a ↔ table[i.index]? = some a := by
  unfold fetch
  split <;> simp_all

/-- An operation stops either with an error of its own or at a reference out of range. -/
inductive Fault (ε : Type) where
  | failed (e : ε)
  | outOfRange (r : OutOfRange)
deriving DecidableEq, Repr

instance {ε : Type} : MonadLift (Except OutOfRange) (Except (Fault ε)) where
  monadLift
    | .ok a => .ok a
    | .error r => .error (.outOfRange r)

end PointsTo
