import Mathlib.Data.List.Perm.Basic
import PointsTo.Proofs.Analysis.Solution
import PointsTo.Proofs.FirstOccurrences

/-!
# What the index of a built program says

The solver meets the loads, stores and calls on a variable through the record of the variable alone. In
a built program the record is exact: each of its lists is what the statements of the body, in their
order, have in one role, and over all variables each statement is on record once. Building changes
nothing but the records and the lists of returned variables.
-/

namespace PointsTo

/-! ## Roles of variables -/

namespace Stmt

/-- In a field write, the base; with it the field and the written variable. -/
def fieldStore? : Stmt → Option (VarId × FieldId × VarId)
  | .storeField (.member base f) rhs => some (base, f, rhs)
  | _ => none

/-- In a field read, the base; with it the field and the assigned variable. -/
def fieldLoad? : Stmt → Option (VarId × FieldId × VarId)
  | .loadField lhs (.member base f) => some (base, f, lhs)
  | _ => none

/-- In an array write, the base; with it the written variable. -/
def arrayStore? : Stmt → Option (VarId × VarId)
  | .storeArray base rhs => some (base, rhs)
  | _ => none

/-- In an array read, the base; with it the assigned variable. -/
def arrayLoad? : Stmt → Option (VarId × VarId)
  | .loadArray lhs base => some (base, lhs)
  | _ => none

/-- In a call that has one, the receiver; with it the call. -/
def callOn? (invokes : Array Invoke) : Stmt → Option (VarId × InvokeId)
  | .invoke i => do
    let call ← invokes[i.index]?
    return (← call.receiver, i)
  | _ => none

/-- The variable that a part of its record finds a statement under, and what stands there. -/
def inPart {α : Type} (invokes : Array Invoke) (part : Use → Option α) (s : Stmt) :
    Option (VarId × α) := do
  let (v, use) ← s.use? invokes
  return (v, ← part use)

/-- The parts of a record are the five roles. -/
theorem roles_eq (invokes : Array Invoke) (s : Stmt) :
    s.fieldStore? = s.inPart invokes Use.storeField? ∧
      s.fieldLoad? = s.inPart invokes Use.loadField? ∧
      s.arrayStore? = s.inPart invokes Use.storeArray? ∧
      s.arrayLoad? = s.inPart invokes Use.loadArray? ∧
      s.callOn? invokes = s.inPart invokes Use.invoke? := by
  cases s with
  | storeField access rhs => cases access <;> exact ⟨rfl, rfl, rfl, rfl, rfl⟩
  | loadField lhs access => cases access <;> exact ⟨rfl, rfl, rfl, rfl, rfl⟩
  | invoke i =>
    rcases described : invokes[i.index]? with _ | call
    · simp [fieldStore?, fieldLoad?, arrayStore?, arrayLoad?, callOn?, inPart, use?, described]
    · rcases called : call.receiver with _ | v <;>
        simp [fieldStore?, fieldLoad?, arrayStore?, arrayLoad?, callOn?, inPart, use?, described,
          called, Use.storeField?, Use.loadField?, Use.storeArray?, Use.loadArray?, Use.invoke?]
  | _ => exact ⟨rfl, rfl, rfl, rfl, rfl⟩

end Stmt

section Roles

variable {α : Type}

/-- The statements in which a variable plays a role, in their order, each seen from the variable. -/
def seenFrom (v : VarId) (role : Stmt → Option (VarId × α)) (stmts : List Stmt) : List α :=
  stmts.filterMap fun s => (role s).bind fun x => if x.1 = v then some x.2 else none

variable {role : Stmt → Option (VarId × α)} {invokes : Array Invoke} {v : VarId}

/-- A part of the record of a variable is what the statements have in one role. -/
theorem filterMap_usesOf {part : Use → Option α} (suits : ∀ s, role s = s.inPart invokes part)
    (stmts : List Stmt) :
    (Program.usesOf invokes v stmts).filterMap part = seenFrom v role stmts := by
  rw [Program.usesOf, List.filterMap_filterMap, seenFrom]
  congr 1
  funext s
  rw [suits, Stmt.inPart]
  rcases s.use? invokes with _ | ⟨w, use⟩
  · rfl
  · rcases shown : part use with _ | a <;> by_cases own : w = v <;> simp [own, shown]

theorem seenFrom_append (stmts stmts' : List Stmt) :
    seenFrom v role (stmts ++ stmts') = seenFrom v role stmts ++ seenFrom v role stmts' :=
  List.filterMap_append

theorem seenFrom_flatMap {β : Type} (l : List β) (body : β → List Stmt) :
    seenFrom v role (l.flatMap body) = l.flatMap fun b => seenFrom v role (body b) := by
  induction l with
  | nil => rfl
  | cons b l ih => rw [List.flatMap_cons, seenFrom_append, ih, List.flatMap_cons]

theorem seenFrom_eq_nil {stmts : List Stmt} (strange : ∀ s ∈ stmts, ∀ x, role s = some x → x.1 ≠ v) :
    seenFrom v role stmts = [] := by
  rw [seenFrom, List.filterMap_eq_nil_iff]
  intro s mem
  rcases plays : role s with _ | x
  · rfl
  · simp [strange s mem x plays]

end Roles

/-! ## Lists of parts -/

section Parts

variable {α β : Type}

/-- When all parts but one are empty, that part is the whole. -/
theorem flatMap_eq_of_only {l : List α} {f : α → List β} {k : Nat} {a : α} (here : l[k]? = some a)
    (others : ∀ j b, l[j]? = some b → j ≠ k → f b = []) : l.flatMap f = f a := by
  induction l generalizing k with
  | nil => simp at here
  | cons b l ih =>
    rw [List.flatMap_cons]
    cases k with
    | zero =>
      obtain rfl : b = a := by simpa using here
      have rest : l.flatMap f = [] := by
        rw [List.flatMap_eq_nil_iff]
        intro c mem
        obtain ⟨j, found⟩ := List.mem_iff_getElem?.1 mem
        exact others (j + 1) c found (Nat.succ_ne_zero j)
      rw [rest, List.append_nil]
    | succ k =>
      have first : f b = [] := others 0 b rfl (Nat.succ_ne_zero k).symm
      have rest := ih here fun j c found other => others (j + 1) c found (mt Nat.succ.inj other)
      rw [first, rest, List.nil_append]

/-- One number of a range is equal to a number below its bound. -/
theorem flatMap_range_ite {n k : Nat} (inside : k < n) (b : β) :
    (List.range n).flatMap (fun i => if k = i then [b] else []) = [b] := by
  have here : (List.range n)[k]? = some k := by simp [inside]
  rw [flatMap_eq_of_only here, if_pos rfl]
  intro j i found other
  obtain rfl : j = i := by
    rw [List.getElem?_range (by simpa using (List.getElem?_eq_some_iff.1 found).1)] at found
    exact Option.some.inj found
  rw [if_neg other.symm]

/-- Grouping a list by numbers below a bound keeps its entries. -/
theorem perm_flatMap_range {n : Nat} {key : β → Nat} {l : List β} (inside : ∀ b ∈ l, key b < n) :
    ((List.range n).flatMap fun i => l.filter (key · = i)).Perm l := by
  induction l with
  | nil => simp
  | cons b l ih =>
    have first := flatMap_range_ite (inside b List.mem_cons_self) b
    have rest := ih fun c mem => inside c (List.mem_cons_of_mem b mem)
    have apart : ∀ i, (b :: l).filter (key · = i) =
        (if key b = i then [b] else []) ++ l.filter (key · = i) := by
      intro i
      by_cases own : key b = i <;> simp [own]
    simp only [apart]
    refine (List.flatMap_append_perm _ _ _).symm.trans ?_
    rw [first]
    exact rest.cons b

end Parts

/-! ## Exact records -/

namespace Program

variable {α : Type} (p : Program)

/-- The statements of a method; none if there is no such method. -/
def body (m : MethodId) : List Stmt :=
  ((p.methods[m.index]?).map (·.body.toList)).getD []

/-- The entries of a list of all records, each with the variable that it stands under. -/
def filed (list : Uses → List α) : List (VarId × α) :=
  p.vars.toList.zipIdx.flatMap fun x => (list x.1.uses).map (Prod.mk ⟨x.2⟩)

/-- A list of the record of a variable is what the statements in which it plays a role have in it, one
entry for each statement in their order. They all stand in the method of the variable. Over all
variables every statement with the role is on record once. -/
structure Files (role : Stmt → Option (VarId × α)) (list : Uses → List α) : Prop where
  ofMethod {v : VarId} {var : Var} : p.vars[v.index]? = some var →
    list var.uses = seenFrom v role (p.body var.method)
  ofProgram {v : VarId} {var : Var} : p.vars[v.index]? = some var →
    list var.uses = seenFrom v role p.stmts
  owned {m : MethodId} {s : Stmt} {x : VarId × α} : s ∈ p.body m → role s = some x → p.Owns m x.1
  once : (p.filed list).Perm (p.stmts.filterMap role)

/-- The five lists of the records have the five roles, and methods list the variables that they
return, in the order of their first occurrences. -/
structure ExactIndex : Prop where
  storeFields : p.Files Stmt.fieldStore? Uses.storeFields
  loadFields : p.Files Stmt.fieldLoad? Uses.loadFields
  storeArrays : p.Files Stmt.arrayStore? Uses.storeArrays
  loadArrays : p.Files Stmt.arrayLoad? Uses.loadArrays
  invokes : p.Files (Stmt.callOn? p.invokes) Uses.invokes
  returned {m : MethodId} {method : Method} : p.methods[m.index]? = some method →
    FirstsOf ((p.body m).filterMap Stmt.returned?) method.returned

/-- Two programs differ in nothing but the records of variables and the lists of returned variables. -/
structure SameButIndex (p p' : Program) : Prop where
  classes : p'.classes = p.classes
  fields : p'.fields = p.fields
  methods : p'.methods.map ({ · with returned := [] }) = p.methods.map ({ · with returned := [] })
  vars : p'.vars.map ({ · with uses := .none }) = p.vars.map ({ · with uses := .none })
  invokes : p'.invokes = p.invokes
  entries : p'.entries = p.entries
  objectClass : p'.objectClass = p.objectClass

variable {p} {role : Stmt → Option (VarId × α)}

theorem mem_body {m : MethodId} {s : Stmt} : s ∈ p.body m ↔ ∃ i, p.stmt? m i = some s := by
  simp only [stmt?_eq_some_iff, body]
  cases p.methods[m.index]? with
  | none => simp
  | some method => simp [List.mem_iff_getElem?]

/-- The statements in which a variable plays a role stand in its method. -/
theorem seenFrom_stmts {v : VarId} {var : Var} (declared : p.vars[v.index]? = some var)
    (owned : ∀ m s x, s ∈ p.body m → role s = some x → p.Owns m x.1) :
    seenFrom v role p.stmts = seenFrom v role (p.body var.method) := by
  have others : ∀ (j : Nat) (method : Method), p.methods.toList[j]? = some method →
      j ≠ var.method.index → seenFrom v role method.body.toList = [] := by
    intro j method found other
    have same : p.body ⟨j⟩ = method.body.toList := by
      rw [Array.getElem?_toList] at found
      simp [body, found]
    refine seenFrom_eq_nil fun s mem x plays own => ?_
    obtain ⟨var', declared', method'⟩ := owned ⟨j⟩ s x (same ▸ mem) plays
    rw [own, declared] at declared'
    obtain rfl := Option.some.inj declared'
    exact other (by rw [method'])
  rw [stmts, seenFrom_flatMap]
  cases found : p.methods.toList[var.method.index]? with
  | some method =>
    rw [flatMap_eq_of_only found others]
    rw [Array.getElem?_toList] at found
    simp [body, found]
  | none =>
    have empty : p.body var.method = [] := by
      rw [Array.getElem?_toList] at found
      simp [body, found]
    rw [empty, List.flatMap_eq_nil_iff.2]
    · rfl
    · intro method mem
      obtain ⟨j, here⟩ := List.mem_iff_getElem?.1 mem
      refine others j method here ?_
      rintro rfl
      rw [found] at here
      cases here

theorem filter_filterMap_role (v : VarId) (stmts : List Stmt) :
    (stmts.filterMap role).filter (·.1 = v) = (seenFrom v role stmts).map (Prod.mk v) := by
  rw [seenFrom, List.filter_filterMap, List.map_filterMap]
  congr 1
  funext s
  rcases role s with _ | ⟨w, a⟩
  · rfl
  · by_cases own : w = v <;> simp [own]

/-- When each record has the statements in which its variable plays a role, and all these variables
are declared, every statement with the role is on record once. -/
theorem perm_filed {list : Uses → List α}
    (records : ∀ v var, p.vars[v.index]? = some var → list var.uses = seenFrom v role p.stmts)
    (declared : ∀ x ∈ p.stmts.filterMap role, x.1.index < p.vars.size) :
    (p.filed list).Perm (p.stmts.filterMap role) := by
  have group : ∀ x ∈ p.vars.toList.zipIdx, (list x.1.uses).map (Prod.mk ⟨x.2⟩) =
      (p.stmts.filterMap role).filter (·.1.index = x.2) := by
    intro x mem
    have found : p.vars[x.2]? = some x.1 := by
      rw [← Array.getElem?_toList]
      exact List.mem_zipIdx_iff_getElem?.1 mem
    have named : ∀ y : VarId × α, decide (y.1.index = x.2) = decide (y.1 = ⟨x.2⟩) := by
      rintro ⟨⟨i⟩, a⟩
      simp
    simp only [named]
    rw [filter_filterMap_role, records ⟨x.2⟩ x.1 found]
  have positions : p.filed list = (List.range p.vars.size).flatMap fun i =>
      (p.stmts.filterMap role).filter (·.1.index = i) := by
    rw [filed, List.flatMap_congr group, List.range_eq_range', ← Array.length_toList,
      ← List.zipIdx_map_snd 0 p.vars.toList, List.flatMap_map]
  rw [positions]
  exact perm_flatMap_range declared

theorem body_indexed (p : Program) (m : MethodId) : p.indexed.body m = p.body m := by
  rw [body, getElem?_methods_indexed, Option.map_map]
  rfl

/-- A statement uses variables of its method only, also as base or receiver. -/
theorem Checked.owns_of_inPart (checked : p.Checked) {part : Use → Option α} {m : MethodId}
    {s : Stmt} {x : VarId × α} (mem : s ∈ p.body m) (found : s.inPart p.invokes part = some x) :
    p.Owns m x.1 := by
  obtain ⟨i, stands⟩ := mem_body.1 mem
  obtain ⟨⟨v, use⟩, used, rest⟩ := Option.bind_eq_some_iff.1 found
  obtain ⟨a, -, same⟩ := Option.bind_eq_some_iff.1 rest
  obtain rfl := Option.some.inj same
  obtain ⟨vs, vars, owned⟩ := (checked.stmts m i s stands).vars
  exact owned v (mem_vars_of_stands (use?_eq_some_iff.1 used) vars)

/-- Indexing a checked program makes a list of the records exact for its role. -/
theorem Checked.files_indexed (checked : p.Checked) {part : Use → Option α} {list : Uses → List α}
    (suits : ∀ s, role s = s.inPart p.invokes part)
    (reads : ∀ l, list (.ofList l) = l.filterMap part) : p.indexed.Files role list := by
  have owned : ∀ m s x, s ∈ p.indexed.body m → role s = some x → p.indexed.Owns m x.1 := by
    intro m s x mem plays
    rw [body_indexed] at mem
    rw [suits] at plays
    exact owns_indexed (checked.owns_of_inPart mem plays)
  have records : ∀ (v : VarId) (var : Var), p.indexed.vars[v.index]? = some var →
      list var.uses = seenFrom v role p.indexed.stmts := by
    intro v var declared
    rw [getElem?_vars_indexed] at declared
    obtain ⟨before, -, rfl⟩ := Option.map_eq_some_iff.1 declared
    rw [reads, filterMap_usesOf suits, stmts_indexed]
  refine ⟨?_, fun declared => records _ _ declared, fun mem plays => owned _ _ _ mem plays, ?_⟩
  · intro v var declared
    rw [records v var declared, seenFrom_stmts declared owned]
  · refine perm_filed records fun x mem => ?_
    obtain ⟨s, listed, plays⟩ := List.mem_filterMap.1 mem
    obtain ⟨m, i, stands⟩ := mem_stmts.1 listed
    obtain ⟨var, declared, -⟩ := owned m s x (mem_body.2 ⟨i, stands⟩) plays
    exact (Array.getElem?_eq_some_iff.1 declared).1

theorem Checked.exactIndex_indexed (checked : p.Checked) : p.indexed.ExactIndex where
  storeFields := checked.files_indexed (fun s => (s.roles_eq p.invokes).1) fun _ => rfl
  loadFields := checked.files_indexed (fun s => (s.roles_eq p.invokes).2.1) fun _ => rfl
  storeArrays := checked.files_indexed (fun s => (s.roles_eq p.invokes).2.2.1) fun _ => rfl
  loadArrays := checked.files_indexed (fun s => (s.roles_eq p.invokes).2.2.2.1) fun _ => rfl
  invokes := checked.files_indexed (fun s => (s.roles_eq p.invokes).2.2.2.2) fun _ => rfl
  returned {m method} declared := by
    rw [body_indexed, body]
    rw [getElem?_methods_indexed] at declared
    obtain ⟨before, found, rfl⟩ := Option.map_eq_some_iff.1 declared
    rw [found]
    exact firstsOf_distinct _

theorem sameButIndex_indexed (p : Program) : p.SameButIndex p.indexed where
  classes := rfl
  fields := rfl
  methods := by
    rw [indexed, Array.map_map]
    rfl
  vars := by
    refine Array.ext_getElem? fun i => ?_
    rw [Array.getElem?_map, getElem?_vars_indexed, Array.getElem?_map, Option.map_map]
    rfl
  invokes := rfl
  entries := rfl
  objectClass := rfl

end Program

/-- Whatever declarations have made a draft: if it passes its checks, the program that is built has
exact records of the uses of its variables and exact lists of returned variables, and all else in it is
what the draft has. -/
theorem Draft.exactIndex_of_build {d : Draft} {p : Program} (built : d.build = .ok p) :
    p.ExactIndex ∧ d.program.SameButIndex p := by
  obtain ⟨⟨⟩, checked, done⟩ := bind_eq_ok_iff.1 built
  obtain rfl := pure_eq_ok_iff.1 done
  exact ⟨(Program.checked_of_check checked).exactIndex_indexed, Program.sameButIndex_indexed _⟩

/-- A method with a variable that is base and operand at once, and with a call that it makes twice. -/
def busyVariable : List Declaration :=
  [.addClass "A" none false,
    .addField ⟨0⟩ "next" false,
    .addMethod ⟨0⟩ ⟨"A run()"⟩ false [],
    .var ⟨0⟩ "x",
    .addStmt ⟨0⟩ (.storeField (.member ⟨1⟩ ⟨0⟩) ⟨1⟩),
    .addStmt ⟨0⟩ (.loadField ⟨1⟩ (.member ⟨1⟩ ⟨0⟩)),
    .addStmt ⟨0⟩ (.storeField (.member ⟨1⟩ ⟨0⟩) ⟨0⟩),
    .addInvoke ⟨0⟩ .virtual ⟨⟨0⟩, ⟨"A run()"⟩⟩ (some ⟨1⟩) [] none,
    .addStmt ⟨0⟩ (.invoke ⟨0⟩),
    .addStmt ⟨0⟩ (.ret (some ⟨1⟩)),
    .addStmt ⟨0⟩ (.ret (some ⟨0⟩)),
    .addStmt ⟨0⟩ (.ret (some ⟨1⟩))]

/-- The record of the variable has the repeated call twice, and the method lists it once. -/
theorem exactIndex_of_build_busyVariable : ∃ d p,
    (Draft.empty.declareAll busyVariable).2 = .ok d ∧ d.build = .ok p ∧ p.ExactIndex ∧
      d.program.SameButIndex p ∧
      p.vars[1]?.map (·.uses) =
        some ⟨[(⟨0⟩, ⟨1⟩), (⟨0⟩, ⟨0⟩)], [(⟨0⟩, ⟨1⟩)], [], [], [⟨0⟩, ⟨0⟩]⟩ ∧
      p.methods[0]?.map (·.returned) = some [⟨1⟩, ⟨0⟩] := by
  obtain ⟨d, declared, built⟩ :=
    Program.exists_draft_of_ofDeclarations? (l := busyVariable) (by decide +kernel)
  obtain ⟨exact', same⟩ := Draft.exactIndex_of_build built
  refine ⟨d, _, declared, built, exact', same, ?_, ?_⟩
  · decide +kernel
  · decide +kernel

end PointsTo
