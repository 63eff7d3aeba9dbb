import PointsTo.Proofs.Inclusion.Rules

/-!
# What dispatch reads

Dispatch reads the class tables and the heads of methods, and nothing of their bodies. So calls reach
the same methods in two programs that differ only in their bodies, and fail in the same way.
-/

namespace PointsTo

/-- A method without its body and without what the body returns. -/
def Method.head (m : Method) : Method :=
  { m with returned := [], body := #[] }

namespace Hierarchy

/-- The programs of two hierarchies have the same classes, and the same methods but for their bodies.
-/
structure Alike (h h' : Hierarchy) : Prop where
  classes : h'.program.classes = h.program.classes
  heads : h'.program.methods.map Method.head = h.program.methods.map Method.head
  objectClass : h'.program.objectClass = h.program.objectClass

namespace Alike

variable {h h' : Hierarchy} (alike : h.Alike h')
include alike

/-! ## Look-ups -/

theorem classAt (c : ClassId) : h'.program.classAt c = h.program.classAt c := by
  rw [Program.classAt, Program.classAt, alike.classes]

/-- What is done with a method is the same if it reads the head of the method only. -/
theorem methodAt_bind {α : Type} (m : MethodId) {f : Method → Except OutOfRange α}
    (reads : ∀ method, f method.head = f method) :
    h'.program.methodAt m >>= f = h.program.methodAt m >>= f := by
  have shape (p : Program) :
      p.methodAt m >>= f = fetch (p.methods.map Method.head) m >>= f := by
    unfold Program.methodAt fetch
    rw [Array.getElem?_map]
    cases p.methods[m.index]? with
    | none => rfl
    | some method => exact (reads method).symm
  rw [shape h'.program, shape h.program, alike.heads]

theorem superclassOf (c : ClassId) : h'.superclassOf c = h.superclassOf c := by
  rw [Hierarchy.superclassOf, Hierarchy.superclassOf, alike.classAt]

theorem declaredMethod (c : ClassId) (s : Subsignature) :
    h'.declaredMethod c s = h.declaredMethod c s := by
  rw [Hierarchy.declaredMethod, Hierarchy.declaredMethod, alike.classAt]

/-! ## Searches -/

theorem chain (c : ClassId) : h'.chain c = h.chain c := by
  have chainFrom (bound : Nat) : ∀ c, h'.chainFrom bound c = h.chainFrom bound c := by
    induction bound with
    | zero => exact fun _ => rfl
    | succ bound ih =>
      intro c
      simp only [Hierarchy.chainFrom, alike.superclassOf, ih]
  rw [Hierarchy.chain, Hierarchy.chain, alike.classes, chainFrom]

theorem firstDeclared (s : Subsignature) (l : List ClassId) :
    h'.firstDeclared s l = h.firstDeclared s l := by
  induction l with
  | nil => rfl
  | cons c l ih => simp only [Hierarchy.firstDeclared, alike.declaredMethod, ih]

theorem firstConcrete (s : Subsignature) (l : List ClassId) :
    h'.firstConcrete s l = h.firstConcrete s l := by
  induction l with
  | nil => rfl
  | cons c l ih =>
    simp only [Hierarchy.firstConcrete, alike.declaredMethod, ih]
    congr 1
    funext found
    cases found with
    | none => rfl
    | some m => exact alike.methodAt_bind m fun _ => rfl

theorem chainInterfaces (l : List ClassId) : h'.chainInterfaces l = h.chainInterfaces l := by
  simp only [Hierarchy.chainInterfaces, alike.classAt]

/-! ## Targets of calls -/

/-- The same method runs on an object of a class. -/
theorem dispatch (c : ClassId) (s : Subsignature) : h'.dispatch c s = h.dispatch c s := by
  simp only [Hierarchy.dispatch, Hierarchy.dispatchDefault, alike.chain, alike.firstConcrete,
    alike.chainInterfaces, alike.classAt, alike.classes]

theorem resolve (r : MethodRef) : h'.resolve r = h.resolve r := by
  simp only [Hierarchy.resolve, alike.chain, alike.firstDeclared]

/-- A static call reaches the same method. -/
theorem resolveStatic (r : MethodRef) : h'.resolveStatic r = h.resolveStatic r := by
  simp only [Hierarchy.resolveStatic, alike.resolve]
  congr 1
  funext found
  cases found with
  | none => rfl
  | some m => exact alike.methodAt_bind m fun _ => rfl

theorem dispatchOn (ty : Ty) (s : Subsignature) : h'.dispatchOn ty s = h.dispatchOn ty s := by
  cases ty with
  | ref c => exact alike.dispatch c s
  | array elem => simp only [Hierarchy.dispatchOn, alike.objectClass, alike.dispatch]

/-- A call on an object reaches the same method. -/
theorem calleeOn (call : Invoke) (ty : Ty) : h'.calleeOn call ty = h.calleeOn call ty := by
  simp only [Hierarchy.calleeOn, Hierarchy.resolveSpecial, alike.dispatch, alike.dispatchOn]

end Alike

end Hierarchy

end PointsTo
