import PointsTo.Keyed
import PointsTo.Program.Basic

/-!
# Abstract heap objects

An abstract object stands for all objects that some allocations create. A heap model decides which
allocations share an object. Two are given: one object for each allocation statement, and one for
each allocated type.
-/

namespace PointsTo

/-- An allocation statement: a method and a position in its body. -/
structure AllocSite where
  method : MethodId
  position : Nat
deriving DecidableEq, Repr

/-- The method and the position with an at sign between them. -/
def AllocSite.text (s : AllocSite) : String :=
  s.method.text ++ "@" ++ toString s.position

instance : Keyed AllocSite where
  code s := [s.method.index, s.position]
  code_injective := by
    rintro ⟨⟨m⟩, i⟩ ⟨⟨m'⟩, i'⟩ same
    simp_all

/-- The class of a type after its number of array dimensions. -/
def Ty.code : Ty → List Nat
  | .ref c => [0, c.index]
  | .array elem => 1 :: elem.code

instance : Keyed Ty where
  code := Ty.code
  code_injective := by
    intro t
    induction t with
    | ref c =>
      obtain ⟨i⟩ := c
      rintro (⟨⟨j⟩⟩ | u) same <;> simp_all [Ty.code]
    | array elem ih =>
      rintro (⟨⟨j⟩⟩ | u) same
      · simp [Ty.code] at same
      · rw [ih (List.cons.inj same).2]

/-- An abstract object. -/
structure Obj where
  id : ObjId
  /-- The allocation that the object was made for first. -/
  site : AllocSite
  /-- The allocated type, on which calls dispatch. -/
  ty : Ty
  /-- The class that declares the allocating method. -/
  containerClass : ClassId
deriving DecidableEq, Repr

namespace Obj

/-- The allocating method. -/
def containerMethod (o : Obj) : MethodId :=
  o.site.method

/-- The type and the allocation. -/
def text (o : Obj) : String :=
  "new " ++ o.ty.text ++ " @ " ++ o.site.text

end Obj

/-- A policy on abstract objects: what it keeps, and how it answers. -/
structure HeapModel where
  /-- What the policy keeps during an analysis. -/
  State : Type
  initial : State
  /-- The object of an allocation, made when the allocation is seen first. -/
  objectOf : Program → AllocSite → Ty → State → Except OutOfRange (ObjId × State)
  /-- The object that an identifier names. -/
  objectAt : State → ObjId → Except OutOfRange Obj
  /-- All objects, by identifier. -/
  objects : State → Array Obj

/-- Objects made so far, and which of them a share of the allocations has. -/
structure Heap (κ : Type) [Keyed κ] where
  objects : Array Obj
  shares : Map κ ObjId

namespace Heap

variable {κ : Type} [Keyed κ]

/-- The heap without objects. -/
def empty : Heap κ := ⟨#[], ∅⟩

/-- The object of the share that an allocation falls into, made if there is none. -/
def objectOf (share : AllocSite → Ty → κ) (p : Program) (site : AllocSite) (ty : Ty)
    (h : Heap κ) : Except OutOfRange (ObjId × Heap κ) :=
  match h.shares[share site ty]? with
  | some o => .ok (o, h)
  | none => do
    let o : ObjId := ⟨h.objects.size⟩
    let owner := (← p.methodAt site.method).owner
    return (o, ⟨h.objects.push ⟨o, site, ty, owner⟩, h.shares.insert (share site ty) o⟩)

end Heap

namespace HeapModel

/-- Allocations share an object when they agree on a key. -/
def sharing {κ : Type} [Keyed κ] (share : AllocSite → Ty → κ) : HeapModel where
  State := Heap κ
  initial := .empty
  objectOf := Heap.objectOf share
  objectAt h o := fetch h.objects o
  objects h := h.objects

/-- One object for each allocation statement. -/
def bySite : HeapModel :=
  sharing fun site _ => site

/-- One object for each allocated type. -/
def byType : HeapModel :=
  sharing fun _ ty => ty

end HeapModel

end PointsTo
