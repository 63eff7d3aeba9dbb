import PointsTo.Proofs.Closure
import PointsTo.Proofs.Program.WellFormed

/-!
# Dispatch of declared classes

In a well-formed program every look-up that dispatch makes succeeds, and what it finds is a declared
method. The hierarchy of such a program exists.
-/

namespace PointsTo

namespace Hierarchy

variable {h : Hierarchy}

/-! ## Look-ups of declared classes -/

theorem exists_classAt {c : ClassId} (declared : c.index < h.program.classes.size) :
    ∃ decl, h.program.classAt c = .ok decl ∧ h.program.classes[c.index]? = some decl := by
  obtain ⟨decl, found⟩ := exists_fetch_eq_ok_iff.2 declared
  exact ⟨decl, found, fetch_eq_ok_iff.1 found⟩

theorem exists_methodAt {m : MethodId} (declared : m.index < h.program.methods.size) :
    ∃ method, h.program.methodAt m = .ok method := exists_fetch_eq_ok_iff.2 declared

section WellFormed

variable (wf : h.program.WellFormed)
include wf

theorem exists_superclassOf {c : ClassId} (declared : c.index < h.program.classes.size) :
    ∃ above, h.superclassOf c = .ok above ∧
      ∀ a, above = some a → a.index < h.program.classes.size := by
  obtain ⟨decl, lookup, found⟩ := exists_classAt declared
  refine ⟨decl.superclass, by rw [superclassOf, lookup]; rfl, fun a ha => ?_⟩
  exact wf.supertypes c.index decl found a (by simp [ClassDecl.supertypes, ha])

theorem exists_interfaces {c : ClassId} (declared : c.index < h.program.classes.size) :
    ∃ ks, (do return (← h.program.classAt c).interfaces : Except OutOfRange (List ClassId)) = .ok ks ∧
      ∀ k ∈ ks, k.index < h.program.classes.size := by
  obtain ⟨decl, lookup, found⟩ := exists_classAt declared
  refine ⟨decl.interfaces, by rw [lookup]; rfl, fun k hk => ?_⟩
  exact wf.supertypes c.index decl found k (by simp [ClassDecl.supertypes, hk])

theorem exists_declaredMethod {c : ClassId} (declared : c.index < h.program.classes.size)
    (s : Subsignature) : ∃ found, h.declaredMethod c s = .ok found ∧
      ∀ m, found = some m → m.index < h.program.methods.size := by
  obtain ⟨decl, lookup, present⟩ := exists_classAt declared
  refine ⟨decl.method? s, by rw [declaredMethod, lookup]; rfl, fun m hm => ?_⟩
  obtain ⟨before, after, same, -⟩ := List.lookup_eq_some_iff.1 hm
  exact wf.tables c.index decl present (s, m) (by simp [same])

theorem exists_chainFrom (bound : Nat) {c : ClassId}
    (declared : c.index < h.program.classes.size) :
    ∃ l, h.chainFrom bound c = .ok l ∧ ∀ a ∈ l, a.index < h.program.classes.size := by
  induction bound generalizing c with
  | zero => exact ⟨[], rfl, by simp⟩
  | succ bound ih =>
    obtain ⟨above, lookup, inside⟩ := exists_superclassOf wf declared
    rw [chainFrom, lookup]
    cases above with
    | none => exact ⟨[c], rfl, by simpa using declared⟩
    | some a =>
      obtain ⟨l, rest, all⟩ := ih (inside a rfl)
      refine ⟨c :: l, by simp only [bind, Except.bind, rest]; rfl, ?_⟩
      exact List.forall_mem_cons.2 ⟨declared, all⟩

/-! ## Searches along declared classes -/

theorem exists_firstDeclared (s : Subsignature) {l : List ClassId}
    (declared : ∀ c ∈ l, c.index < h.program.classes.size) :
    ∃ found, h.firstDeclared s l = .ok found ∧
      ∀ m, found = some m → m.index < h.program.methods.size := by
  induction l with
  | nil => exact ⟨none, rfl, by simp⟩
  | cons c l ih =>
    obtain ⟨here, lookup, inside⟩ := exists_declaredMethod wf (declared c (by simp)) s
    rw [firstDeclared, lookup]
    cases here with
    | none => exact ih fun a ha => declared a (by simp [ha])
    | some m => exact ⟨some m, rfl, inside⟩

theorem exists_firstConcrete (s : Subsignature) {l : List ClassId}
    (declared : ∀ c ∈ l, c.index < h.program.classes.size) :
    ∃ found, h.firstConcrete s l = .ok found ∧
      ∀ m, found = some m → m.index < h.program.methods.size := by
  induction l with
  | nil => exact ⟨none, rfl, by simp⟩
  | cons c l ih =>
    obtain ⟨here, lookup, inside⟩ := exists_declaredMethod wf (declared c (by simp)) s
    have rest := ih fun a ha => declared a (by simp [ha])
    rw [firstConcrete, lookup]
    cases here with
    | none => exact rest
    | some m =>
      obtain ⟨method, found⟩ := exists_methodAt (inside m rfl)
      simp only [bind, Except.bind, found]
      split
      · exact rest
      · exact ⟨some m, rfl, inside⟩

theorem exists_chainInterfaces {l : List ClassId}
    (declared : ∀ c ∈ l, c.index < h.program.classes.size) :
    ∃ ks, h.chainInterfaces l = .ok ks ∧ ∀ k ∈ ks, k.index < h.program.classes.size := by
  obtain ⟨lists, found⟩ := exists_mapM_eq_ok fun c hc =>
    (exists_interfaces wf (declared c hc)).imp fun _ => And.left
  refine ⟨lists.flatten, by rw [chainInterfaces, found]; rfl, fun k hk => ?_⟩
  obtain ⟨ks, listed, mem⟩ := List.mem_flatten.1 hk
  obtain ⟨c, hc, lookup⟩ := (mem_of_mapM_eq_ok found).1 listed
  obtain ⟨ks', lookup', inside⟩ := exists_interfaces wf (declared c hc)
  rw [lookup] at lookup'
  obtain rfl := Except.ok.inj lookup'
  exact inside k mem

/-- Dispatch on a declared class finds a declared method or nothing. -/
theorem exists_dispatch {c : ClassId} (declared : c.index < h.program.classes.size)
    (s : Subsignature) : ∃ found, h.dispatch c s = .ok found ∧
      ∀ m, found = some m → m.index < h.program.methods.size := by
  obtain ⟨l, chain, onChain⟩ := exists_chainFrom wf (h.program.classes.size + 1) declared
  obtain ⟨first, found, inside⟩ := exists_firstConcrete wf s onChain
  have same : h.chain c = .ok l := chain
  rw [dispatch, same]
  simp only [bind, Except.bind, found]
  cases first with
  | some m => exact ⟨some m, rfl, inside⟩
  | none =>
    obtain ⟨ks, interfaces, listed⟩ := exists_chainInterfaces wf onChain
    obtain ⟨t, closed, -, all⟩ := exists_closure (fun _ inside => inside)
      (fun k hk => exists_interfaces wf hk) listed
    have search := exists_firstConcrete wf s all
    simp only [dispatchDefault, interfaces, bind, Except.bind] at closed ⊢
    simpa only [closed] using search

theorem exists_resolve {r : MethodRef} (declared : r.owner.index < h.program.classes.size) :
    ∃ found, h.resolve r = .ok found ∧
      ∀ m, found = some m → m.index < h.program.methods.size := by
  obtain ⟨l, chain, onChain⟩ := exists_chainFrom wf (h.program.classes.size + 1) declared
  have same : h.chain r.owner = .ok l := chain
  rw [resolve, same]
  exact exists_firstDeclared wf r.subsignature onChain

theorem exists_resolveStatic {r : MethodRef} (declared : r.owner.index < h.program.classes.size) :
    ∃ found, h.resolveStatic r = .ok found ∧
      ∀ m, found = some m → m.index < h.program.methods.size := by
  obtain ⟨first, found, inside⟩ := exists_resolve wf declared
  simp only [resolveStatic, bind, Except.bind, found]
  cases first with
  | none => exact ⟨none, rfl, by simp⟩
  | some m =>
    obtain ⟨method, lookup⟩ := exists_methodAt (inside m rfl)
    simp only [lookup]
    split
    · exact ⟨some m, rfl, inside⟩
    · exact ⟨none, rfl, by simp⟩

theorem exists_dispatchOn {ty : Ty} (declared : ∀ c, ty = .ref c → c.index < h.program.classes.size)
    (s : Subsignature) : ∃ found, h.dispatchOn ty s = .ok found ∧
      ∀ m, found = some m → m.index < h.program.methods.size := by
  cases ty with
  | ref c => exact exists_dispatch wf (declared c rfl) s
  | array elem =>
    rw [dispatchOn]
    cases root : h.program.objectClass with
    | none => exact ⟨none, rfl, by simp⟩
    | some c => exact exists_dispatch wf (wf.objectClass c root) s

/-- A call with a declared target finds a declared method or nothing, on an object of any declared
type. -/
theorem exists_calleeOn {call : Invoke} {ty : Ty}
    (target : call.target.owner.index < h.program.classes.size)
    (declared : ∀ c, ty = .ref c → c.index < h.program.classes.size) :
    ∃ found, h.calleeOn call ty = .ok found ∧
      ∀ m, found = some m → m.index < h.program.methods.size := by
  unfold calleeOn
  cases call.kind with
  | static => exact ⟨none, rfl, by simp⟩
  | special => exact exists_dispatch wf target _
  | virtual => exact exists_dispatchOn wf declared _
  | interface => exact exists_dispatchOn wf declared _

end WellFormed

/-! ## The hierarchy of a program -/

/-- A link table has a row for each of `n` classes, and lists only these. -/
structure Linked (n : Nat) (table : Array (List ClassId)) : Prop where
  size : table.size = n
  inside : ∀ (i : Nat) (row : List ClassId), table[i]? = some row → ∀ c ∈ row, c.index < n

/-- The link tables of a hierarchy are over its classes. -/
structure Rows (n : Nat) (h : Hierarchy) : Prop where
  subclasses : Linked n h.subclasses
  subinterfaces : Linked n h.subinterfaces
  implementors : Linked n h.implementors

theorem linked_replicate (n : Nat) : Linked n (Array.replicate n []) := by
  constructor
  · simp
  · intro i row found c mem
    simp only [Array.getElem?_replicate] at found
    split at found
    · cases found
      cases mem
    · cases found

theorem exists_link {n : Nat} {table : Array (List ClassId)} (linked : Linked n table)
    {below above : ClassId} (below_lt : below.index < n) (above_lt : above.index < n) :
    ∃ table', link table below above = .ok table' ∧ Linked n table' := by
  obtain ⟨known, found⟩ := exists_fetch_eq_ok_iff.2 (linked.size ▸ above_lt)
  refine ⟨_, by rw [link, found]; rfl, by simpa using linked.size, ?_⟩
  intro i row listed c mem
  rw [Array.set!_eq_setIfInBounds, Array.getElem?_setIfInBounds] at listed
  by_cases here : above.index = i
  · rw [if_pos here, if_pos (linked.size ▸ here ▸ above_lt)] at listed
    cases listed
    rcases List.mem_append.1 mem with old | new
    · exact linked.inside above.index known (fetch_eq_ok_iff.1 found) c old
    · rw [List.mem_singleton.1 new]
      exact below_lt
  · rw [if_neg here] at listed
    exact linked.inside i row listed c mem

theorem exists_foldlM_link {n : Nat} {below : ClassId} (below_lt : below.index < n)
    (l : List ClassId) (inside : ∀ c ∈ l, c.index < n) {table : Array (List ClassId)}
    (linked : Linked n table) :
    ∃ table', l.foldlM (link · below) table = .ok table' ∧ Linked n table' :=
  exists_foldlM_eq_ok (fun above ha _ linked => exists_link linked below_lt (inside above ha)) linked

theorem exists_addClass {n : Nat} {h : Hierarchy} (rows : Rows n h) {c : ClassId}
    (declared : c.index < n) {decl : ClassDecl} (inside : ∀ a ∈ decl.supertypes, a.index < n) :
    ∃ h', h.addClass c decl = .ok h' ∧ h'.program = h.program ∧ Rows n h' := by
  obtain ⟨subclasses, found, linked⟩ := exists_foldlM_link declared decl.superclass.toList
    (fun a ha => inside a (List.mem_append_left _ ha)) rows.subclasses
  have upward : ∀ a ∈ decl.interfaces, a.index < n :=
    fun a ha => inside a (List.mem_append_right _ ha)
  rw [addClass, found]
  by_cases iface : decl.isInterface = true
  · obtain ⟨table, below, linked'⟩ := exists_foldlM_link declared _ upward rows.subinterfaces
    refine ⟨{ h with subclasses := subclasses, subinterfaces := table }, ?_, rfl,
      linked, linked', rows.implementors⟩
    simp only [bind, Except.bind, iface, if_true] at below ⊢
    rw [below]
    rfl
  · obtain ⟨table, below, linked'⟩ := exists_foldlM_link declared _ upward rows.implementors
    refine ⟨{ h with subclasses := subclasses, implementors := table }, ?_, rfl,
      linked, rows.subinterfaces, linked'⟩
    simp only [bind, Except.bind, iface] at below ⊢
    rw [if_neg (by simp), below]
    rfl

/-- A checked program has a hierarchy, and its link tables are over the classes of the program. -/
theorem exists_rows {p : Program} (checked : p.Checked) :
    ∃ h, ofProgram p = .ok h ∧ h.program = p ∧ Rows p.classes.size h := by
  have none := linked_replicate p.classes.size
  refine exists_foldlM_eq_ok ?_ ⟨rfl, none, none, none⟩
  rintro ⟨decl, i⟩ listed h ⟨same, rows⟩
  have found := (List.mk_mem_zipIdx_iff_getElem? (i := i) (x := decl)).1 listed
  rw [Array.getElem?_toList] at found
  have declared := (Array.getElem?_eq_some_iff.1 found).1
  obtain ⟨h', added, kept, rows'⟩ := exists_addClass rows (c := ⟨i⟩) declared
    (checked.supertypes i decl found)
  exact ⟨h', added, kept.trans same, rows'⟩

/-- A checked program has a hierarchy, and it is a hierarchy of that program. -/
theorem exists_ofProgram {p : Program} (checked : p.Checked) :
    ∃ h, ofProgram p = .ok h ∧ h.program = p := by
  obtain ⟨h, found, same, -⟩ := exists_rows checked
  exact ⟨h, found, same⟩

theorem program_of_ofProgram {p : Program} (checked : p.Checked) {h : Hierarchy}
    (found : ofProgram p = .ok h) : h.program = p := by
  obtain ⟨h', found', same⟩ := exists_ofProgram checked
  rw [found] at found'
  rw [Except.ok.inj found', same]

theorem rows_of_ofProgram {p : Program} (checked : p.Checked) {h : Hierarchy}
    (found : ofProgram p = .ok h) : Rows p.classes.size h := by
  obtain ⟨h', found', -, rows⟩ := exists_rows checked
  rw [found] at found'
  rw [Except.ok.inj found']
  exact rows

/-! ## Subtypes -/

section Subtypes

variable (rows : Rows h.program.classes.size h)
include rows

theorem exists_directSubtypesOf {c : ClassId} (declared : c.index < h.program.classes.size) :
    ∃ l, h.directSubtypesOf c = .ok l ∧ ∀ k ∈ l, k.index < h.program.classes.size := by
  have row : ∀ {table : Array (List ClassId)}, Linked h.program.classes.size table →
      ∃ l, fetch table c = .ok l ∧ ∀ k ∈ l, k.index < h.program.classes.size := by
    intro table linked
    obtain ⟨l, found⟩ := exists_fetch_eq_ok_iff.2 (linked.size ▸ declared)
    exact ⟨l, found, linked.inside c.index l (fetch_eq_ok_iff.1 found)⟩
  obtain ⟨decl, lookup, -⟩ := exists_classAt declared
  obtain ⟨subclasses, found, inside⟩ := row rows.subclasses
  obtain ⟨implementors, found₁, inside₁⟩ := row rows.implementors
  obtain ⟨subinterfaces, found₂, inside₂⟩ := row rows.subinterfaces
  have kind : h.isInterface c = .ok decl.isInterface := by
    rw [isInterface, lookup]
    rfl
  by_cases iface : decl.isInterface = true
  · refine ⟨implementors ++ subinterfaces, ?_, fun k mem => ?_⟩
    · simp only [directSubtypesOf, kind, iface, implementorsOf, subinterfacesOf, found₁, found₂, bind,
        Except.bind]
      rfl
    · exact (List.mem_append.1 mem).elim (inside₁ k) (inside₂ k)
  · refine ⟨subclasses, ?_, inside⟩
    simp only [directSubtypesOf, kind, bind, Except.bind]
    rw [if_neg iface]
    exact found

/-- The classes below a declared class are declared, and it is among them. -/
theorem exists_subtypes {c : ClassId} (declared : c.index < h.program.classes.size) :
    ∃ l, h.subtypes c = .ok l ∧ c ∈ l ∧ ∀ k ∈ l, k.index < h.program.classes.size := by
  have start : ∀ k ∈ [c], k.index < h.program.classes.size := by simpa using declared
  obtain ⟨t, closed, expands, inside⟩ := exists_closure (fun _ inside => inside)
    (fun k hk => exists_directSubtypesOf rows hk) start
  refine ⟨t.toList, ?_, expands.closed_of_seeds.1 c (List.mem_singleton_self c), inside⟩
  rw [subtypes, closed]
  rfl

end Subtypes

end Hierarchy

end PointsTo
