import PointsTo.Table

/-!
# Calling contexts

A context is a sequence of call sites, objects or classes that tells apart the runs of a method.
Contexts are interned: equal sequences have one identifier, and the empty sequence has the first.
`append` and `truncate` keep no more of a sequence than its last few elements.
-/

namespace PointsTo

/-- An element of a context. -/
inductive ContextElement where
  | callSite (i : InvokeId)
  | object (o : ObjId)
  | type (c : ClassId)
deriving DecidableEq, Repr, Ord

namespace ContextElement

/-- The identifier in an element. -/
def text : ContextElement → String
  | .callSite i => i.text
  | .object o => o.text
  | .type c => c.text

/-- The kind of an element and its position in the table of that kind. -/
def code : ContextElement → List Nat
  | .callSite i => [0, i.index]
  | .object o => [1, o.index]
  | .type c => [2, c.index]

end ContextElement

/-- A sequence of context elements, the latest last. -/
abbrev Context := List ContextElement

instance : Keyed Context where
  code c := c.flatMap ContextElement.code
  code_injective := by
    intro c
    induction c with
    | nil =>
      rintro (_ | ⟨e, c⟩) same
      · rfl
      · cases e <;> simp [ContextElement.code] at same
    | cons e c ih =>
      rintro (_ | ⟨e', c'⟩) same
      · cases e <;> simp [ContextElement.code] at same
      · have heads : e = e' ∧ c.flatMap ContextElement.code = c'.flatMap ContextElement.code := by
          rcases e with ⟨⟨i⟩⟩ | ⟨⟨i⟩⟩ | ⟨⟨i⟩⟩ <;> rcases e' with ⟨⟨j⟩⟩ | ⟨⟨j⟩⟩ | ⟨⟨j⟩⟩ <;>
            simp_all [ContextElement.code]
        rw [heads.1, ih heads.2]

/-- The last `n` elements of a list, or all of a shorter one. -/
def lastN {α : Type} (n : Nat) (l : List α) : List α :=
  l.drop (l.length - n)

/-- The last `n` elements of a list that has as many, so that no position is negative. -/
def ending {α : Type} (n : Nat) (l : List α) (_ : n ≤ l.length) : List α :=
  l.drop (l.length - n)

/-- The identifier of the empty context. -/
def ContextId.empty : ContextId := ⟨0⟩

/-- Interned contexts, the empty one first. -/
structure ContextTable where
  table : Table Context
  /-- The empty context has the first position. -/
  first : table.get? 0 = some []

namespace ContextTable

/-- The table of the empty context alone. -/
def empty : ContextTable where
  table := Table.empty.insert []
  first := Table.get?_intern Table.empty []

instance : Inhabited ContextTable := ⟨empty⟩

/-- The number of contexts. -/
def size (t : ContextTable) : Nat :=
  t.table.size

/-- The identifier of a sequence, new if the sequence is. -/
def intern (t : ContextTable) (c : Context) : ContextId × ContextTable :=
  (⟨(t.table.intern c).1⟩, ⟨(t.table.intern c).2, Table.get?_intern_of_get? t.first⟩)

/-- The sequence that an identifier names. -/
def elements (t : ContextTable) (c : ContextId) : Except OutOfRange Context :=
  fetch t.table.items c

/-- The number of elements of a context. -/
def depth (t : ContextTable) (c : ContextId) : Except OutOfRange Nat :=
  return (← t.elements c).length

/-- The last elements of a context followed by one more element, as many as the limit allows. -/
def append (t : ContextTable) (parent : ContextId) (e : ContextElement) :
    Nat → Except OutOfRange (ContextId × ContextTable)
  | 0 => .ok (.empty, t)
  | others + 1 => do
    let elements ← t.elements parent
    let kept := ending (min elements.length others) elements (Nat.min_le_left _ _)
    return t.intern (kept ++ [e])

/-- The last `limit` elements of a context. -/
def truncate (t : ContextTable) (c : ContextId) (limit : Nat) :
    Except OutOfRange (ContextId × ContextTable) := do
  let elements ← t.elements c
  if short : elements.length ≤ limit then return (c, t)
  else return t.intern (ending limit elements (Nat.le_of_not_le short))

/-- The elements of a context in brackets. -/
def text (t : ContextTable) (c : ContextId) : Except OutOfRange String :=
  return "[" ++ String.intercalate ", " ((← t.elements c).map ContextElement.text) ++ "]"

end ContextTable

end PointsTo
