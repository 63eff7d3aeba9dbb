import PointsTo.Proofs.Inclusion.Rules
import PointsTo.Proofs.Program.Draft

/-!
# What the checks of a program guarantee

A program that passes `Program.check` refers to declared classes, fields and methods only, and each
statement uses variables and calls of the method that it stands in.
-/

namespace PointsTo

theorem lift_eq_ok_iff {ε α : Type} {x : Except OutOfRange α} {a : α} :
    (liftM x : Except (Fault ε) α) = .ok a ↔ x = .ok a := by
  cases x with
  | error r => simp [liftM, monadLift, MonadLift.monadLift]
  | ok b => simp [liftM, monadLift, MonadLift.monadLift]

/-- The class of a type is declared. -/
def Program.Declares (p : Program) : Ty → Prop
  | .ref c => c.index < p.classes.size
  | .array elem => p.Declares elem

/-- What holds of a statement of a checked method. -/
structure Program.Admits (p : Program) (m : MethodId) (s : Stmt) : Prop where
  vars : ∃ vs, s.vars p = .ok vs ∧ ∀ v ∈ vs, p.Owns m v
  allocated : ∀ lhs ty, s = .new lhs ty → p.Declares ty
  loaded : ∀ lhs access, s = .loadField lhs access → access.field.index < p.fields.size
  stored : ∀ access rhs, s = .storeField access rhs → access.field.index < p.fields.size
  called : ∀ i, s = .invoke i → ∃ call, p.invokes[i.index]? = some call ∧ call.container = m ∧
    call.target.owner.index < p.classes.size ∧ (call.kind = .static ↔ call.receiver = none)

/-- What holds of a checked program. -/
structure Program.Checked (p : Program) : Prop where
  supertypes : ∀ (i : Nat) (decl : ClassDecl), p.classes[i]? = some decl →
    ∀ c ∈ decl.supertypes, c.index < p.classes.size
  objectClass : ∀ c, p.objectClass = some c → c.index < p.classes.size
  stmts : ∀ (m : MethodId) (i : Nat) (s : Stmt), p.stmt? m i = some s → p.Admits m s
  entries : ∀ m ∈ p.entries, m.index < p.methods.size

namespace Program

variable {p : Program}

/-- The type of a declared class has a name. -/
theorem Declares.exists_typeName {ty : Ty} (declared : p.Declares ty) :
    ∃ name, p.typeName ty = .ok name := by
  induction ty with
  | ref c =>
    obtain ⟨decl, lookup⟩ : ∃ decl, p.classAt c = .ok decl := exists_fetch_eq_ok_iff.2 declared
    exact ⟨decl.name, bind_eq_ok_iff.2 ⟨decl, lookup, rfl⟩⟩
  | array elem ih =>
    obtain ⟨name, found⟩ := ih declared
    exact ⟨name ++ "[]", bind_eq_ok_iff.2 ⟨name, found, rfl⟩⟩

/-! ## Single checks -/

theorem checkClass_eq_ok_iff {r : Referrer} {c : ClassId} :
    p.checkClass r c = .ok () ↔ c.index < p.classes.size := by
  unfold checkClass hasClass
  by_cases inside : c.index < p.classes.size
  · simp [inside]
  · simp [inside, reject]

theorem checkType_eq_ok_iff {r : Referrer} {ty : Ty} :
    p.checkType r ty = .ok () ↔ p.Declares ty := by
  induction ty with
  | ref c => exact checkClass_eq_ok_iff
  | array elem ih => exact ih

theorem checkField_eq_ok_iff {r : Referrer} {f : FieldId} :
    p.checkField r f = .ok () ↔ f.index < p.fields.size := by
  unfold checkField
  by_cases inside : f.index < p.fields.size
  · simp [inside]
  · simp [inside, reject]

theorem checkVar_eq_ok_iff {m : MethodId} {name : String} {v : VarId} :
    p.checkVar m name v = .ok () ↔ p.Owns m v := by
  rw [← ownsVar_iff]
  unfold checkVar
  cases p.ownsVar m v <;> simp [reject]

theorem checkEntry_eq_ok_iff {m : MethodId} :
    p.checkEntry m = .ok () ↔ m.index < p.methods.size := by
  unfold checkEntry
  by_cases inside : m.index < p.methods.size
  · simp [inside]
  · simp [inside, reject]

theorem invokes_of_ownsInvoke {m : MethodId} {i : InvokeId} (h : p.ownsInvoke m i = true) :
    ∃ call, p.invokes[i.index]? = some call ∧ call.container = m := by
  unfold ownsInvoke at h
  split at h
  · rename_i call found
    exact ⟨call, found, by simpa using h⟩
  · simp at h

theorem container_of_checkCaller {m : MethodId} {name : String} {i : InvokeId}
    (h : p.checkCaller m name (.invoke i) = .ok ()) :
    ∃ call, p.invokes[i.index]? = some call ∧ call.container = m := by
  by_cases owned : p.ownsInvoke m i = true
  · exact invokes_of_ownsInvoke owned
  · simp [checkCaller, owned, reject] at h

theorem target_of_checkInvoke {name : String} {i : InvokeId} {call : Invoke}
    (h : p.checkInvoke name i = .ok ()) (found : p.invokes[i.index]? = some call) :
    call.target.owner.index < p.classes.size ∧ (call.kind = .static ↔ call.receiver = none) := by
  obtain ⟨call', lookup, rest⟩ := bind_eq_ok_iff.1 h
  have same := fetch_eq_ok_iff.1 (lift_eq_ok_iff.1 lookup)
  rw [found] at same
  obtain rfl := Option.some.inj same
  obtain ⟨⟨⟩, owner, shape⟩ := bind_eq_ok_iff.1 rest
  refine ⟨checkClass_eq_ok_iff.1 owner, ?_⟩
  split at shape
  · simp [reject] at shape
  · rename_i agree
    exact iff_of_eq (Classical.not_not.1 agree)

/-! ## Statements, methods and programs -/

theorem admits_of_checkStmt {m : MethodId} {name : String} {s : Stmt}
    (h : p.checkStmt m name s = .ok ()) : p.Admits m s := by
  obtain ⟨⟨⟩, caller, rest⟩ := bind_eq_ok_iff.1 h
  obtain ⟨vs, lookup, rest⟩ := bind_eq_ok_iff.1 rest
  obtain ⟨⟨⟩, owned, operand⟩ := bind_eq_ok_iff.1 rest
  refine ⟨⟨vs, lift_eq_ok_iff.1 lookup, fun v hv =>
    checkVar_eq_ok_iff.1 (forM_eq_ok_iff.1 owned v hv)⟩, ?_, ?_, ?_, ?_⟩
  · rintro lhs ty rfl
    exact checkType_eq_ok_iff.1 operand
  · rintro lhs access rfl
    exact checkField_eq_ok_iff.1 operand
  · rintro access rhs rfl
    exact checkField_eq_ok_iff.1 operand
  · rintro i rfl
    obtain ⟨call, found, container⟩ := container_of_checkCaller caller
    exact ⟨call, found, container, target_of_checkInvoke operand found⟩

theorem stmts_of_checkMethod {m : MethodId} {method : Method}
    (h : p.checkMethod m method = .ok ()) {s : Stmt} (mem : s ∈ method.body.toList) :
    p.Admits m s := by
  obtain ⟨name, -, rest⟩ := bind_eq_ok_iff.1 h
  split at rest
  · simp [reject, bind, Except.bind] at rest
  · exact admits_of_checkStmt (forM_eq_ok_iff.1 rest s mem)

theorem supertypes_of_checkClass
    (h : (p.classes.toList.forM fun c => c.supertypes.forM (p.checkClass (.classNamed c.name))) =
      .ok ()) {i : Nat} {decl : ClassDecl} (found : p.classes[i]? = some decl) :
    ∀ c ∈ decl.supertypes, c.index < p.classes.size := by
  intro c hc
  have mem : decl ∈ p.classes.toList := Array.mem_toList_iff.2 (Array.mem_of_getElem? found)
  exact checkClass_eq_ok_iff.1 (forM_eq_ok_iff.1 (forM_eq_ok_iff.1 h decl mem) c hc)

theorem checked_of_checkClasses (h : p.checkClasses = .ok ()) :
    (∀ (i : Nat) (decl : ClassDecl), p.classes[i]? = some decl →
      ∀ c ∈ decl.supertypes, c.index < p.classes.size) ∧
    ∀ c, p.objectClass = some c → c.index < p.classes.size := by
  obtain ⟨⟨⟩, classes, rest⟩ := bind_eq_ok_iff.1 h
  obtain ⟨⟨⟩, root, -⟩ := bind_eq_ok_iff.1 rest
  refine ⟨fun i decl found => supertypes_of_checkClass classes found, fun c hc => ?_⟩
  exact checkClass_eq_ok_iff.1 (forM_eq_ok_iff.1 root c (by simp [hc]))

theorem stmt?_eq_some_iff {m : MethodId} {i : Nat} {s : Stmt} :
    p.stmt? m i = some s ↔ ∃ method, p.methods[m.index]? = some method ∧ method.body[i]? = some s := by
  simp [stmt?, Option.bind_eq_some_iff]

/-- The statements behind the first one of a part of a body stand one position further on. -/
theorem stmt?_of_tail {m : MethodId} {position : Nat} {stmt : Stmt} {stmts : List Stmt}
    (stand : ∀ j s, (stmt :: stmts)[j]? = some s → p.stmt? m (position + j) = some s) (j : Nat)
    (s : Stmt) (listed : stmts[j]? = some s) : p.stmt? m (position + 1 + j) = some s := by
  rw [Nat.add_assoc, Nat.add_comm 1 j]
  exact stand (j + 1) s listed

theorem mem_methodIds {m : MethodId} : m ∈ p.methodIds ↔ m.index < p.methods.size := by
  simp only [methodIds, List.mem_map, List.mem_range]
  constructor
  · rintro ⟨i, inside, rfl⟩
    exact inside
  · intro inside
    exact ⟨m.index, inside, rfl⟩

/-- A program that passes the checks is a checked program. -/
theorem checked_of_check (h : p.check = .ok ()) : p.Checked := by
  obtain ⟨⟨⟩, classes, rest⟩ := bind_eq_ok_iff.1 h
  obtain ⟨⟨⟩, methods, entries⟩ := bind_eq_ok_iff.1 rest
  obtain ⟨supertypes, objectClass⟩ := checked_of_checkClasses classes
  refine ⟨supertypes, objectClass, ?_, ?_⟩
  · intro m i s found
    obtain ⟨method, declared, stands⟩ := stmt?_eq_some_iff.1 found
    have listed := mem_methodIds.2 (Array.getElem?_eq_some_iff.1 declared).1
    obtain ⟨method', lookup, checked⟩ := bind_eq_ok_iff.1 (forM_eq_ok_iff.1 methods m listed)
    have same := fetch_eq_ok_iff.1 (lift_eq_ok_iff.1 lookup)
    rw [declared] at same
    obtain rfl := Option.some.inj same
    exact stmts_of_checkMethod checked (Array.mem_toList_iff.2 (Array.mem_of_getElem? stands))
  · exact fun m hm => checkEntry_eq_ok_iff.1 (forM_eq_ok_iff.1 entries m hm)

end Program

end PointsTo
