import PointsTo.Proofs.Program.Check

/-!
# The index of uses

Finishing a program records for each variable the statements that have it as base or receiver. The
record of a variable is the list of those statements, in the order of the bodies, each seen from the
variable; since a checked statement uses variables of its own method, they all stand in the method
of the variable.
-/

namespace PointsTo

/-! ## Records of uses -/

namespace Use

/-- Field and written variable of a field write. -/
def storeField? : Use → Option (FieldId × VarId)
  | .storeField f rhs => some (f, rhs)
  | _ => none

/-- Field and assigned variable of a field read. -/
def loadField? : Use → Option (FieldId × VarId)
  | .loadField f lhs => some (f, lhs)
  | _ => none

/-- Written variable of an array write. -/
def storeArray? : Use → Option VarId
  | .storeArray rhs => some rhs
  | _ => none

/-- Assigned variable of an array read. -/
def loadArray? : Use → Option VarId
  | .loadArray lhs => some lhs
  | _ => none

/-- A call on the variable. -/
def invoke? : Use → Option InvokeId
  | .invoke i => some i
  | _ => none

end Use

/-- The record of a list of uses. -/
def Uses.ofList (l : List Use) : Uses :=
  ⟨l.filterMap Use.storeField?, l.filterMap Use.loadField?, l.filterMap Use.storeArray?,
    l.filterMap Use.loadArray?, l.filterMap Use.invoke?⟩

/-- Uses that are recorded one after the other stand in the record in their order. -/
theorem foldl_add_ofList (l known : List Use) :
    l.foldl Uses.add (Uses.ofList known) = Uses.ofList (known ++ l) := by
  induction l generalizing known with
  | nil => simp
  | cons use l ih =>
    have step : (Uses.ofList known).add use = Uses.ofList (known ++ [use]) := by
      cases use <;> simp [Uses.ofList, Uses.add, Use.storeField?, Use.loadField?, Use.storeArray?,
        Use.loadArray?, Use.invoke?]
    rw [List.foldl_cons, step, ih, List.append_assoc, List.singleton_append]

theorem ofList_nil : Uses.ofList [] = .none := rfl

/-- A use is on record. -/
def Uses.Has (u : Uses) : Use → Prop
  | .storeField f rhs => (f, rhs) ∈ u.storeFields
  | .loadField f lhs => (f, lhs) ∈ u.loadFields
  | .storeArray rhs => rhs ∈ u.storeArrays
  | .loadArray lhs => lhs ∈ u.loadArrays
  | .invoke i => i ∈ u.invokes

/-- A part of a record that is read off by a projection has the uses that project to it. -/
theorem mem_filterMap_use {α : Type} {part : Use → Option α} {l : List Use} {a : α} {use : Use}
    (unique : ∀ other, part other = some a ↔ other = use) : a ∈ l.filterMap part ↔ use ∈ l := by
  simp [List.mem_filterMap, unique]

theorem has_ofList {l : List Use} {use : Use} : (Uses.ofList l).Has use ↔ use ∈ l := by
  cases use <;> refine mem_filterMap_use fun other => ?_ <;> cases other <;>
    simp [Use.storeField?, Use.loadField?, Use.storeArray?, Use.loadArray?, Use.invoke?]

/-- A statement seen from the variable that it has as base or receiver. -/
def Use.Stands (invokes : Array Invoke) (v : VarId) (s : Stmt) : Use → Prop
  | .storeField f rhs => s = .storeField (.member v f) rhs
  | .loadField f lhs => s = .loadField lhs (.member v f)
  | .storeArray rhs => s = .storeArray v rhs
  | .loadArray lhs => s = .loadArray lhs v
  | .invoke i => s = .invoke i ∧ ∃ call, invokes[i.index]? = some call ∧ call.receiver = some v

theorem use?_eq_some_iff {invokes : Array Invoke} {v : VarId} {s : Stmt} {use : Use} :
    s.use? invokes = some (v, use) ↔ use.Stands invokes v s := by
  cases s with
  | loadField lhs access =>
    cases access <;> cases use <;> simp [Stmt.use?, Use.Stands]
    tauto
  | storeField access rhs =>
    cases access <;> cases use <;> simp [Stmt.use?, Use.Stands, and_assoc]
  | loadArray lhs base =>
    cases use <;> simp [Stmt.use?, Use.Stands]
    exact and_comm
  | storeArray base rhs => cases use <;> simp [Stmt.use?, Use.Stands]
  | invoke i =>
    cases use <;> simp [Stmt.use?, Use.Stands, Option.bind_eq_some_iff]
    constructor
    · rintro ⟨call, described, receiver, rfl⟩
      exact ⟨rfl, call, described, receiver⟩
    · rintro ⟨rfl, call, described, receiver⟩
      exact ⟨call, described, receiver, rfl⟩
  | _ => cases use <;> simp [Stmt.use?, Use.Stands]

namespace Program

/-- The uses of a variable among some statements. -/
def usesOf (invokes : Array Invoke) (v : VarId) (stmts : List Stmt) : List Use :=
  stmts.filterMap fun s => (s.use? invokes).bind fun (w, use) => if w = v then some use else none

/-- The statements of all bodies, in the order of the methods. -/
def stmts (p : Program) : List Stmt :=
  p.methods.toList.flatMap (·.body.toList)

variable {p : Program}

theorem mem_usesOf {invokes : Array Invoke} {v : VarId} {stmts : List Stmt} {use : Use} :
    use ∈ usesOf invokes v stmts ↔ ∃ s ∈ stmts, s.use? invokes = some (v, use) := by
  simp only [usesOf, List.mem_filterMap, Option.bind_eq_some_iff, Prod.exists]
  constructor
  · rintro ⟨s, hs, w, use', found, same⟩
    split at same
    · rename_i eq
      rw [← eq, ← Option.some.inj same]
      exact ⟨s, hs, found⟩
    · simp at same
  · rintro ⟨s, hs, found⟩
    exact ⟨s, hs, v, use, found, by simp⟩

theorem mem_stmts {s : Stmt} : s ∈ p.stmts ↔ ∃ m i, p.stmt? m i = some s := by
  simp only [stmts, List.mem_flatMap, Array.mem_toList_iff, Array.mem_iff_getElem?, stmt?_eq_some_iff]
  constructor
  · rintro ⟨method, ⟨m, declared⟩, i, stands⟩
    exact ⟨⟨m⟩, i, method, declared, stands⟩
  · rintro ⟨m, i, method, declared, stands⟩
    exact ⟨method, ⟨m.index, declared⟩, i, stands⟩

/-! ## The index -/

theorem getElem?_indexStmt (invokes : Array Invoke) (vars : Array Var) (s : Stmt) (i : Nat)
    (known : List Use) (records : ∀ var, vars[i]? = some var → var.uses = .ofList known) :
    (indexStmt invokes vars s)[i]? =
      vars[i]?.map fun var => { var with uses := .ofList (known ++ usesOf invokes ⟨i⟩ [s]) } := by
  unfold indexStmt
  have unchanged : usesOf invokes ⟨i⟩ [s] = [] → vars[i]? =
      vars[i]?.map fun var => { var with uses := .ofList (known ++ usesOf invokes ⟨i⟩ [s]) } := by
    intro none
    cases found : vars[i]? with
    | none => rfl
    | some var => simp [none, ← records var found]
  cases found : s.use? invokes with
  | none => exact unchanged (by simp [usesOf, found])
  | some entry =>
    obtain ⟨v, use⟩ := entry
    simp only [Array.getElem?_modify]
    by_cases here : v.index = i
    · obtain rfl : v = ⟨i⟩ := Id.ext_index here
      have one : usesOf invokes ⟨i⟩ [s] = [use] := by simp [usesOf, found]
      rw [if_pos rfl, one]
      cases known' : vars[i]? with
      | none => rfl
      | some var =>
        have step := foldl_add_ofList [use] known
        rw [List.foldl_cons, List.foldl_nil] at step
        simp [records var known', step]
    · rw [if_neg here]
      refine unchanged ?_
      have other : v ≠ ⟨i⟩ := fun same => here (by rw [same])
      simp [usesOf, found, other]

theorem getElem?_foldl_indexStmt (invokes : Array Invoke) (l : List Stmt) (vars : Array Var)
    (i : Nat) (known : List Use)
    (records : ∀ var, vars[i]? = some var → var.uses = .ofList known) :
    (l.foldl (indexStmt invokes) vars)[i]? =
      vars[i]?.map fun var => { var with uses := .ofList (known ++ usesOf invokes ⟨i⟩ l) } := by
  induction l generalizing vars known with
  | nil =>
    cases found : vars[i]? with
    | none => simp [found]
    | some var => simp [found, usesOf, ← records var found]
  | cons s l ih =>
    have first := getElem?_indexStmt invokes vars s i known records
    rw [List.foldl_cons, ih (indexStmt invokes vars s) (known ++ usesOf invokes ⟨i⟩ [s]), first]
    · have whole : usesOf invokes ⟨i⟩ [s] ++ usesOf invokes ⟨i⟩ l = usesOf invokes ⟨i⟩ (s :: l) := by
        rw [usesOf, usesOf, usesOf, ← List.filterMap_append, List.singleton_append]
      rw [Option.map_map, List.append_assoc, whole]
      rfl
    · intro var found
      rw [first] at found
      obtain ⟨before, -, rfl⟩ := Option.map_eq_some_iff.1 found
      rfl

/-- Indexing keeps a variable but for its uses, which become those of all statements. -/
theorem getElem?_vars_indexed (p : Program) (i : Nat) :
    p.indexed.vars[i]? =
      p.vars[i]?.map fun var => { var with uses := .ofList (usesOf p.invokes ⟨i⟩ p.stmts) } := by
  have indexed := getElem?_foldl_indexStmt p.invokes p.stmts
    (p.vars.map fun var => { var with uses := .none }) i [] (by
      intro var found
      rw [Array.getElem?_map] at found
      obtain ⟨before, -, rfl⟩ := Option.map_eq_some_iff.1 found
      exact ofList_nil.symm)
  rw [Array.getElem?_map, Option.map_map] at indexed
  exact indexed

theorem getElem?_methods_indexed (p : Program) (i : Nat) :
    p.indexed.methods[i]? = p.methods[i]?.map fun method =>
      { method with returned := distinct (method.body.toList.filterMap Stmt.returned?) } :=
  Array.getElem?_map

theorem stmt?_indexed (p : Program) (m : MethodId) (i : Nat) : p.indexed.stmt? m i = p.stmt? m i := by
  simp only [stmt?, getElem?_methods_indexed]
  cases p.methods[m.index]? <;> rfl

/-! ## Uses of a checked program -/

/-- The base or receiver of a statement is one of its variables. -/
theorem mem_vars_of_stands {s : Stmt} {v : VarId} {use : Use} {vs : List VarId}
    (h : use.Stands p.invokes v s) (vars : s.vars p = .ok vs) : v ∈ vs := by
  cases use with
  | storeField f rhs =>
    obtain rfl := h
    rw [← Except.ok.inj vars]
    simp
  | loadField f lhs =>
    obtain rfl := h
    rw [← Except.ok.inj vars]
    simp
  | storeArray rhs =>
    obtain rfl := h
    rw [← Except.ok.inj vars]
    simp
  | loadArray lhs =>
    obtain rfl := h
    rw [← Except.ok.inj vars]
    simp
  | invoke i =>
    obtain ⟨rfl, call, found, receiver⟩ := h
    obtain ⟨call', lookup, same⟩ := bind_eq_ok_iff.1 vars
    rw [fetch_eq_ok_iff.1 lookup] at found
    obtain rfl := Option.some.inj found
    rw [← pure_eq_ok_iff.1 same]
    simp [Invoke.vars, receiver]

/-- A use of a variable stands in the method of the variable. -/
theorem Checked.mem_usesOf_iff (checked : p.Checked) {v : VarId} {var : Var}
    (declared : p.vars[v.index]? = some var) {use : Use} :
    use ∈ usesOf p.invokes v p.stmts ↔
      ∃ i s, p.stmt? var.method i = some s ∧ use.Stands p.invokes v s := by
  simp only [mem_usesOf, use?_eq_some_iff]
  constructor
  · rintro ⟨s, hs, used⟩
    obtain ⟨m, i, stands⟩ := mem_stmts.1 hs
    obtain ⟨vs, vars, owned⟩ := (checked.stmts m i s stands).vars
    obtain ⟨var', found, own⟩ := owned v (mem_vars_of_stands used vars)
    rw [declared] at found
    obtain rfl := Option.some.inj found
    exact ⟨i, s, own ▸ stands, used⟩
  · rintro ⟨i, s, stands, used⟩
    exact ⟨s, mem_stmts.2 ⟨_, i, stands⟩, used⟩

theorem length_usesOf_le (v : VarId) : (usesOf p.invokes v p.stmts).length ≤ p.stmts.length :=
  List.length_filterMap_le _ _

end Program

end PointsTo
