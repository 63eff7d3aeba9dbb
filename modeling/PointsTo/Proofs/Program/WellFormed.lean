import PointsTo.Proofs.Distinct
import PointsTo.Proofs.Program.Uses
import PointsTo.Solver.Run

/-!
# Well-formed programs

Everything that an analysis relies on in a program, collected from the declarations, the checks and
the indexes. A program that a front end builds is well-formed.
-/

namespace PointsTo

/-- What an analysis relies on in a program. -/
structure Program.WellFormed (p : Program) : Prop extends p.Checked where
  methods : ∀ (m : MethodId) (method : Method), p.methods[m.index]? = some method → p.Headed m method
  tables : ∀ (i : Nat) (decl : ClassDecl), p.classes[i]? = some decl →
    ∀ entry ∈ decl.methods, entry.2.index < p.methods.size
  /-- A method returns what its return statements return. -/
  returned : ∀ (m : MethodId) (method : Method), p.methods[m.index]? = some method →
    ∀ v, v ∈ method.returned ↔ ∃ i, p.stmt? m i = some (.ret (some v))
  /-- The record of a variable has the statements that use it, and no others. -/
  uses : ∀ (v : VarId) (var : Var), p.vars[v.index]? = some var →
    ∀ use, var.uses.Has use ↔ ∃ i s, p.stmt? var.method i = some s ∧ use.Stands p.invokes v s
  invokes : ∀ (v : VarId) (var : Var), p.vars[v.index]? = some var →
    var.uses.invokes.length ≤ p.stmts.length

namespace Program

variable {p : Program}

/-! ## Indexing -/

theorem owns_indexed {m : MethodId} {v : VarId} (h : p.Owns m v) : p.indexed.Owns m v := by
  obtain ⟨var, found, own⟩ := h
  have kept := getElem?_vars_indexed p v.index
  rw [found] at kept
  exact ⟨_, kept, own⟩

theorem vars_indexed (s : Stmt) : s.vars p.indexed = s.vars p := by
  cases s <;> rfl

theorem size_methods_indexed (p : Program) : p.indexed.methods.size = p.methods.size :=
  Array.size_map

theorem stmts_indexed (p : Program) : p.indexed.stmts = p.stmts := by
  simp only [stmts, indexed, Array.toList_map, List.flatMap_map]

theorem Declares.indexed {ty : Ty} (h : p.Declares ty) : p.indexed.Declares ty := by
  induction ty with
  | ref c => exact h
  | array elem ih => exact ih h

theorem Admits.indexed {m : MethodId} {s : Stmt} (h : p.Admits m s) : p.indexed.Admits m s := by
  obtain ⟨vs, vars, owned⟩ := h.vars
  exact ⟨⟨vs, by rw [vars_indexed, vars], fun v hv => owns_indexed (owned v hv)⟩,
    fun lhs ty same => (h.allocated lhs ty same).indexed, h.loaded, h.stored, h.called⟩

theorem Checked.indexed (checked : p.Checked) : p.indexed.Checked where
  supertypes := checked.supertypes
  objectClass := checked.objectClass
  stmts m i s h := (checked.stmts m i s (stmt?_indexed p m i ▸ h)).indexed
  entries m hm := by
    rw [size_methods_indexed]
    exact checked.entries m hm

/-- A sound draft that passes the checks becomes a well-formed program. -/
theorem wellFormed_indexed {d : Draft} (sound : d.Sound) (checked : d.program.Checked) :
    d.program.indexed.WellFormed where
  toChecked := checked.indexed
  methods m method declared := by
    rw [getElem?_methods_indexed] at declared
    obtain ⟨before, found, rfl⟩ := Option.map_eq_some_iff.1 declared
    have headed := sound.methods m.index before found
    exact ⟨fun v hv => owns_indexed (headed.receiver v hv), headed.isStatic,
      fun v hv => owns_indexed (headed.params v hv), headed.owner⟩
  tables i decl found entry listed := by
    rw [size_methods_indexed]
    exact sound.tables i decl found entry listed
  returned m method declared v := by
    rw [getElem?_methods_indexed] at declared
    obtain ⟨before, found, rfl⟩ := Option.map_eq_some_iff.1 declared
    rw [mem_distinct, List.mem_filterMap]
    constructor
    · rintro ⟨s, hs, returns⟩
      obtain ⟨i, stands⟩ := Array.mem_iff_getElem?.1 (Array.mem_toList_iff.1 hs)
      cases s <;> simp [Stmt.returned?] at returns
      subst returns
      exact ⟨i, by rw [stmt?_indexed]; exact stmt?_eq_some_iff.2 ⟨before, found, stands⟩⟩
    · rintro ⟨i, stands⟩
      rw [stmt?_indexed] at stands
      obtain ⟨method, found', stands⟩ := stmt?_eq_some_iff.1 stands
      rw [found] at found'
      obtain rfl := Option.some.inj found'
      exact ⟨_, Array.mem_toList_iff.2 (Array.mem_of_getElem? stands), rfl⟩
  uses v var declared use := by
    rw [getElem?_vars_indexed] at declared
    obtain ⟨before, found, rfl⟩ := Option.map_eq_some_iff.1 declared
    rw [has_ofList, checked.mem_usesOf_iff found]
    simp only [stmt?_indexed]
    rfl
  invokes v var declared := by
    rw [getElem?_vars_indexed] at declared
    obtain ⟨before, found, rfl⟩ := Option.map_eq_some_iff.1 declared
    rw [stmts_indexed]
    exact Nat.le_trans (List.length_filterMap_le _ _) (length_usesOf_le v)

theorem Built.wellFormed (built : p.Built) : p.WellFormed := by
  obtain ⟨l, d, declared, built⟩ := built
  obtain ⟨⟨⟩, checked, same⟩ := bind_eq_ok_iff.1 built
  obtain rfl := pure_eq_ok_iff.1 same
  exact wellFormed_indexed (Draft.sound_empty.declareAll declared) (checked_of_check checked)

/-- The variables of a statement belong to the method that it stands in. -/
theorem WellFormed.owns (wf : p.WellFormed) {m : MethodId} {i : Nat} {stmt : Stmt}
    {vs : List VarId} {v : VarId} (stands : p.stmt? m i = some stmt) (vars : stmt.vars p = .ok vs)
    (mem : v ∈ vs) : p.Owns m v := by
  obtain ⟨vs', vars', owned⟩ := (wf.stmts m i stmt stands).vars
  rw [vars] at vars'
  obtain rfl := Except.ok.inj vars'
  exact owned v mem

end Program

/-- What the checks say of a call that stands in a method. -/
theorem Inclusion.CallIn.admitted {h : Hierarchy} (wf : h.program.WellFormed) {m : MethodId}
    {i : InvokeId} {call : Invoke} (site : CallIn h m i call) :
    call.container = m ∧ call.target.owner.index < h.program.classes.size ∧
      (call.kind = .static ↔ call.receiver = none) := by
  obtain ⟨position, stands⟩ := site.stmt
  obtain ⟨call', found, rest⟩ := (wf.stmts m position _ stands).called i rfl
  have described := site.call
  rw [found] at described
  obtain rfl := Option.some.inj described
  exact rest

end PointsTo
