import Mathlib.Logic.Relation
import PointsTo.Program.Check
import PointsTo.Proofs.Except

/-!
# Sound drafts

What holds of every draft that declarations make, whether or not it passes the checks: the receiver
and the parameters of a method are variables of that method, only a static method has no receiver, a
method belongs to a declared class, and the method tables of classes list declared methods. The
checks of a finished program rely on these and do not repeat them.

A declaration is a sequence of edits. What every edit keeps holds of all drafts.
-/

namespace PointsTo

/-- A method has a variable. -/
def Program.Owns (p : Program) (m : MethodId) (v : VarId) : Prop :=
  ∃ var, p.vars[v.index]? = some var ∧ var.method = m

theorem Program.ownsVar_iff {p : Program} {m : MethodId} {v : VarId} :
    p.ownsVar m v = true ↔ p.Owns m v := by
  unfold Program.ownsVar Program.Owns
  split <;> simp_all

/-- The receiver and the parameters of a method are its own variables, only a static method has no
receiver, and its class is declared. -/
structure Program.Headed (p : Program) (m : MethodId) (method : Method) : Prop where
  receiver : ∀ v, method.receiver = some v → p.Owns m v
  isStatic : method.receiver = none → method.isStatic = true
  params : ∀ v ∈ method.params, p.Owns m v
  owner : method.owner.index < p.classes.size

/-- The name of a method in messages exists. -/
theorem Program.Headed.exists_methodName {p : Program} {m : MethodId} {method : Method}
    (headed : p.Headed m method) (declared : p.methods[m.index]? = some method) :
    ∃ name, p.methodName m = .ok name := by
  have found : p.methodAt m = .ok method := fetch_eq_ok_iff.2 declared
  obtain ⟨decl, lookup⟩ : ∃ decl, p.classAt method.owner = .ok decl :=
    exists_fetch_eq_ok_iff.2 headed.owner
  refine ⟨decl.name ++ "." ++ method.name, ?_⟩
  simp only [methodName, found, lookup, bind, Except.bind]
  rfl

namespace Draft

/-- What declarations keep true of a draft. -/
structure Sound (d : Draft) : Prop where
  methods : ∀ (i : Nat) (method : Method), d.program.methods[i]? = some method →
    d.program.Headed ⟨i⟩ method
  tables : ∀ (i : Nat) (decl : ClassDecl), d.program.classes[i]? = some decl →
    ∀ entry ∈ decl.methods, entry.2.index < d.program.methods.size

/-! ## What declarations do to the tables of a program -/

/-- A program has at least the classes and variables of another, which keep their places. -/
structure Grown (p p' : Program) : Prop where
  vars : ∀ (i : Nat) (var : Var), p.vars[i]? = some var → p'.vars[i]? = some var
  classes : p.classes.size ≤ p'.classes.size
  methods : p.methods.size ≤ p'.methods.size

theorem Grown.refl (p : Program) : Grown p p :=
  ⟨fun _ _ h => h, Nat.le_refl _, Nat.le_refl _⟩

theorem Grown.trans {p p' p'' : Program} (first : Grown p p') (second : Grown p' p'') :
    Grown p p'' :=
  ⟨fun i var h => second.vars i var (first.vars i var h),
    Nat.le_trans first.classes second.classes, Nat.le_trans first.methods second.methods⟩

theorem Grown.owns {p p' : Program} (grown : Grown p p') {m : MethodId} {v : VarId}
    (h : p.Owns m v) : p'.Owns m v := by
  obtain ⟨var, found, own⟩ := h
  exact ⟨var, grown.vars _ _ found, own⟩

theorem Grown.headed {p p' : Program} (grown : Grown p p') {m : MethodId} {method : Method}
    (h : p.Headed m method) : p'.Headed m method :=
  ⟨fun v hv => grown.owns (h.receiver v hv), h.isStatic, fun v hv => grown.owns (h.params v hv),
    Nat.lt_of_lt_of_le h.owner grown.classes⟩

/-- A declaration keeps a draft sound if what it adds or changes is sound. -/
theorem Sound.of_grown {d d' : Draft} (sound : d.Sound) (grown : Grown d.program d'.program)
    (methods : ∀ (i : Nat) (method : Method), d'.program.methods[i]? = some method →
      d.program.methods[i]? = some method ∨ d'.program.Headed ⟨i⟩ method)
    (tables : ∀ (i : Nat) (decl : ClassDecl), d'.program.classes[i]? = some decl →
      ∀ entry ∈ decl.methods, entry.2.index < d'.program.methods.size ∨
        ∃ before, d.program.classes[i]? = some before ∧ entry ∈ before.methods) : d'.Sound := by
  constructor
  · intro i method found
    rcases methods i method found with known | headed
    · exact grown.headed (sound.methods i method known)
    · exact headed
  · intro i decl found entry listed
    rcases tables i decl found entry listed with inside | ⟨before, known, old⟩
    · exact inside
    · exact Nat.lt_of_lt_of_le (sound.tables i before known entry old) grown.methods

/-- Soundness hangs on three tables alone. -/
theorem Sound.of_eq {d d' : Draft} (sound : d.Sound)
    (classes : d'.program.classes = d.program.classes)
    (methods : d'.program.methods = d.program.methods)
    (vars : d'.program.vars = d.program.vars) : d'.Sound := by
  refine sound.of_grown ⟨fun _ _ h => vars ▸ h, by simp [classes], by simp [methods]⟩ ?_ ?_
  · exact fun _ _ h => Or.inl (methods ▸ h)
  · exact fun _ decl found _ listed => Or.inr ⟨decl, classes ▸ found, listed⟩

theorem sound_empty : empty.Sound := by
  constructor <;> intro i x found <;> simp [empty, Program.empty] at found

/-! ## Single declarations -/

theorem editClass_eq_ok_iff {d d' : Draft} {c : ClassId} {edit : ClassDecl → ClassDecl} :
    d.editClass c edit = .ok d' ↔ c.index < d.program.classes.size ∧
      d' = { d with program.classes := d.program.classes.modify c.index edit } := by
  rw [editClass, bind_eq_ok_iff]
  constructor
  · rintro ⟨decl, found, same⟩
    exact ⟨exists_fetch_eq_ok_iff.1 ⟨decl, found⟩, (pure_eq_ok_iff.1 same).symm⟩
  · rintro ⟨inside, rfl⟩
    obtain ⟨decl, found⟩ := exists_fetch_eq_ok_iff.2 inside
    exact ⟨decl, found, rfl⟩

theorem editMethod_eq_ok_iff {d d' : Draft} {m : MethodId} {edit : Method → Method} :
    d.editMethod m edit = .ok d' ↔ m.index < d.program.methods.size ∧
      d' = { d with program.methods := d.program.methods.modify m.index edit } := by
  rw [editMethod, bind_eq_ok_iff]
  constructor
  · rintro ⟨method, found, same⟩
    exact ⟨exists_fetch_eq_ok_iff.1 ⟨method, found⟩, (pure_eq_ok_iff.1 same).symm⟩
  · rintro ⟨inside, rfl⟩
    obtain ⟨method, found⟩ := exists_fetch_eq_ok_iff.2 inside
    exact ⟨method, found, rfl⟩

/-- An entry of a changed table is an entry of the table, or what it was changed to. -/
theorem getElem?_modify_cases {α : Type} {a : Array α} {i j : Nat} {edit : α → α} {x : α}
    (h : (a.modify i edit)[j]? = some x) :
    a[j]? = some x ∨ i = j ∧ ∃ y, a[j]? = some y ∧ x = edit y := by
  rw [Array.getElem?_modify] at h
  split at h
  · obtain ⟨y, found, same⟩ := Option.map_eq_some_iff.1 h
    exact Or.inr ⟨‹i = j›, y, found, same.symm⟩
  · exact Or.inl h

/-- Changing a class in anything but its method table keeps a draft sound. -/
theorem Sound.editClass {d d' : Draft} (sound : d.Sound) {c : ClassId}
    {edit : ClassDecl → ClassDecl} (done : d.editClass c edit = .ok d')
    (kept : ∀ decl, (edit decl).methods = decl.methods) : d'.Sound := by
  obtain ⟨-, rfl⟩ := editClass_eq_ok_iff.1 done
  refine sound.of_grown ⟨fun _ _ h => h, by simp, Nat.le_refl _⟩ (fun _ _ h => Or.inl h) ?_
  intro i decl found entry listed
  right
  rcases getElem?_modify_cases found with known | ⟨rfl, before, known, rfl⟩
  · exact ⟨decl, known, listed⟩
  · exact ⟨before, known, kept before ▸ listed⟩

/-- Changing a method in anything but its head keeps a draft sound. -/
theorem Sound.editMethod {d d' : Draft} (sound : d.Sound) {m : MethodId} {edit : Method → Method}
    (done : d.editMethod m edit = .ok d')
    (kept : ∀ method, (edit method).receiver = method.receiver ∧
      (edit method).isStatic = method.isStatic ∧ (edit method).params = method.params ∧
      (edit method).owner = method.owner) : d'.Sound := by
  obtain ⟨-, rfl⟩ := editMethod_eq_ok_iff.1 done
  refine sound.of_grown ⟨fun _ _ h => h, Nat.le_refl _, by simp⟩ ?_
    (fun i decl found entry listed => Or.inr ⟨decl, found, listed⟩)
  intro i method found
  rcases getElem?_modify_cases found with known | ⟨rfl, before, known, rfl⟩
  · exact Or.inl known
  · obtain ⟨receiver, isStatic, params, owner⟩ := kept before
    have headed := sound.methods m.index before known
    exact Or.inr ⟨fun v hv => headed.receiver v (receiver ▸ hv),
      fun none => isStatic.trans (headed.isStatic (receiver ▸ none)),
      fun v hv => headed.params v (params ▸ hv), owner ▸ headed.owner⟩

theorem getElem?_push_cases {α : Type} {a : Array α} {x y : α} {i : Nat}
    (h : (a.push x)[i]? = some y) : a[i]? = some y ∨ i = a.size ∧ y = x := by
  rw [Array.getElem?_push] at h
  split at h
  · exact Or.inr ⟨‹i = a.size›, (Option.some.inj h).symm⟩
  · exact Or.inl h

theorem getElem?_push_of_getElem? {α : Type} {a : Array α} {x y : α} {i : Nat}
    (h : a[i]? = some y) : (a.push x)[i]? = some y := by
  have inside := (Array.getElem?_eq_some_iff.1 h).1
  rw [Array.getElem?_push, if_neg (Nat.ne_of_lt inside), h]

theorem Sound.addClass {d : Draft} (sound : d.Sound) {decl : ClassDecl} (bare : decl.methods = []) :
    (d.addClass decl).2.Sound := by
  refine sound.of_grown ⟨fun _ _ h => h, by simp [Draft.addClass], Nat.le_refl _⟩
    (fun _ _ h => Or.inl h) ?_
  intro i decl' found entry listed
  right
  rcases getElem?_push_cases found with known | ⟨-, rfl⟩
  · exact ⟨decl', known, listed⟩
  · simp [bare] at listed

/-! ## Variables and methods -/

theorem grown_pushVar (d : Draft) (v : VarName) : Grown d.program (d.pushVar v).2.program :=
  ⟨fun _ _ h => getElem?_push_of_getElem? h, Nat.le_refl _, Nat.le_refl _⟩

theorem owns_pushVar (d : Draft) (v : VarName) :
    (d.pushVar v).2.program.Owns v.method (d.pushVar v).1 :=
  ⟨⟨v.name, v.method, .none⟩, by simp [pushVar], rfl⟩

theorem Sound.pushVar {d : Draft} (sound : d.Sound) (v : VarName) : (d.pushVar v).2.Sound :=
  sound.of_grown (grown_pushVar d v) (fun _ _ h => Or.inl h)
    fun _ decl found _ listed => Or.inr ⟨decl, found, listed⟩

/-- Adding parameters adds variables of their method and nothing else. -/
theorem pushParams_spec (m : MethodId) (names : List String) (d : Draft) (sound : d.Sound) :
    (d.pushParams m names).2.Sound ∧ Grown d.program (d.pushParams m names).2.program ∧
      (d.pushParams m names).2.program.methods = d.program.methods ∧
      (d.pushParams m names).2.program.classes = d.program.classes ∧
      ∀ v ∈ (d.pushParams m names).1, (d.pushParams m names).2.program.Owns m v := by
  induction names generalizing d with
  | nil => exact ⟨sound, .refl _, rfl, rfl, by simp [pushParams]⟩
  | cons name names ih =>
    obtain ⟨restSound, restGrown, restMethods, restClasses, restOwns⟩ :=
      ih (d.pushVar ⟨m, name⟩).2 (sound.pushVar ⟨m, name⟩)
    refine ⟨restSound, (grown_pushVar d ⟨m, name⟩).trans restGrown, restMethods, restClasses, ?_⟩
    intro v hv
    rcases List.mem_cons.1 hv with rfl | hv
    · exact restGrown.owns (owns_pushVar d ⟨m, name⟩)
    · exact restOwns v hv

/-- An entry of a method table after one was set is the one that was set or was there before. -/
theorem mem_setMethod {s : Subsignature} {m : MethodId} {table : List (Subsignature × MethodId)}
    {entry : Subsignature × MethodId} (h : entry ∈ setMethod s m table) :
    entry = (s, m) ∨ entry ∈ table := by
  induction table with
  | nil => exact Or.inl (by simpa [setMethod] using h)
  | cons first rest ih =>
    rw [setMethod] at h
    split at h
    · rcases List.mem_cons.1 h with rfl | h
      · exact Or.inl rfl
      · exact Or.inr (List.mem_cons_of_mem _ h)
    · rcases List.mem_cons.1 h with rfl | h
      · exact Or.inr (by simp)
      · exact (ih h).imp id (List.mem_cons_of_mem _)

/-- A new method that is not static has a receiver variable of its own. -/
theorem pushReceiver_spec {d : Draft} (sound : d.Sound) (m : MethodId) (isStatic : Bool)
    {receiver : Option VarId} {d' : Draft}
    (h : (if isStatic then (none, d) else
      ((some (d.pushVar ⟨m, "this"⟩).1, (d.pushVar ⟨m, "this"⟩).2) : Option VarId × Draft)) =
        (receiver, d')) :
    d'.Sound ∧ Grown d.program d'.program ∧ d'.program.methods = d.program.methods ∧
      d'.program.classes = d.program.classes ∧
      (∀ v, receiver = some v → d'.program.Owns m v) ∧ (receiver = none → isStatic = true) := by
  split at h
  · obtain ⟨rfl, rfl⟩ := Prod.mk.inj h
    exact ⟨sound, .refl _, rfl, rfl, fun v hv => by simp at hv, fun _ => ‹isStatic = true›⟩
  · obtain ⟨rfl, rfl⟩ := Prod.mk.inj h
    refine ⟨sound.pushVar _, grown_pushVar d _, rfl, rfl, ?_, fun none => nomatch none⟩
    rintro v ⟨⟩
    exact owns_pushVar d ⟨m, "this"⟩

theorem Sound.addMethod {d d' : Draft} (sound : d.Sound) {c : ClassId} {s : Subsignature}
    {isStatic isAbstract : Bool} {params : List String} {m : MethodId}
    (done : d.addMethod c s isStatic isAbstract params = .ok (m, d')) : d'.Sound := by
  let id : MethodId := ⟨d.program.methods.size⟩
  rw [Draft.addMethod] at done
  split at done
  rename_i receiver d₁ pushed
  obtain ⟨sound₁, grown₁, methods₁, classes₁, owns₁, static₁⟩ :=
    pushReceiver_spec sound id isStatic pushed
  obtain ⟨sound₂, grown₂, methods₂, classes₂, owns₂⟩ := pushParams_spec id params d₁ sound₁
  simp only at done
  generalize d₁.pushParams id params = pushed₂ at *
  obtain ⟨vs, d₂⟩ := pushed₂
  simp only at done sound₂ grown₂ methods₂ classes₂ owns₂
  obtain ⟨-, edited⟩ := bind_pure_mk_eq_ok_iff.1 done
  obtain ⟨inside, rfl⟩ := editClass_eq_ok_iff.1 edited
  have size : d₂.program.methods.size = d.program.methods.size := by rw [methods₂, methods₁]
  refine sound₂.of_grown ⟨fun _ _ h => h, by simp, by simp⟩ ?_ ?_
  · intro i method found
    rcases getElem?_push_cases found with known | ⟨rfl, rfl⟩
    · exact Or.inl known
    · rw [size]
      exact Or.inr ⟨fun v hv => grown₂.owns (owns₁ v hv), static₁, owns₂, by simpa using inside⟩
  · intro i decl found entry listed
    rcases getElem?_modify_cases found with known | ⟨rfl, before, known, rfl⟩
    · exact Or.inr ⟨decl, known, listed⟩
    · rcases mem_setMethod listed with rfl | old
      · exact Or.inl (by simp [size])
      · exact Or.inr ⟨before, known, old⟩

/-! ## All declarations -/

/-- What declarations are made of. -/
inductive Edit : Draft → Draft → Prop where
  | addClass (d : Draft) {decl : ClassDecl} (bare : decl.methods = []) : Edit d (d.addClass decl).2
  /-- Only a new method changes the method table of a class. -/
  | editClass {d d' : Draft} {c : ClassId} {edit : ClassDecl → ClassDecl}
      (done : d.editClass c edit = .ok d') (kept : ∀ decl, (edit decl).methods = decl.methods) :
      Edit d d'
  | setObjectClass (d : Draft) (c : ClassId) : Edit d { d with program.objectClass := some c }
  | pushField (d : Draft) (f : FieldDecl) :
      Edit d { d with program.fields := d.program.fields.push f }
  | addMethod {d d' : Draft} {c : ClassId} {s : Subsignature} {isStatic isAbstract : Bool}
      {params : List String} {m : MethodId}
      (done : d.addMethod c s isStatic isAbstract params = .ok (m, d')) : Edit d d'
  | addEntry (d : Draft) (m : MethodId) : Edit d (d.addEntry m)
  | pushVar (d : Draft) (v : VarName) : Edit d (d.pushVar v).2
  | addStmt {d d' : Draft} {m : MethodId} {s : Stmt} (done : d.addStmt m s = .ok d') : Edit d d'
  | pushInvoke (d : Draft) (call : Invoke) :
      Edit d { d with program.invokes := d.program.invokes.push call }

/-- A sequence of edits. -/
abbrev Edits : Draft → Draft → Prop :=
  Relation.ReflTransGen Edit

/-- A declaration that gives back what it has added succeeds if adding does. -/
theorem exists_of_reply {α : Type} {x : Except OutOfRange (α × Draft)} {answer : α → Reply}
    {reply : Reply} {d' : Draft}
    (done : (do let (a, d) ← x; return (answer a, d)) = Except.ok (reply, d')) :
    ∃ a, x = .ok (a, d') := by
  obtain ⟨⟨a, d⟩, added, same⟩ := bind_eq_ok_iff.1 done
  obtain ⟨-, rfl⟩ := Prod.mk.inj (pure_eq_ok_iff.1 same)
  exact ⟨a, added⟩

theorem edits_of_declare {d d' : Draft} {s : Declaration} {reply : Reply}
    (done : d.declare s = .ok (reply, d')) : Edits d d' := by
  cases s with
  | addClass name superclass isAbstract | addInterface name extended =>
    obtain ⟨-, rfl⟩ := Prod.mk.inj (Except.ok.inj done)
    exact .single (.addClass d rfl)
  | addImplements c iface =>
    exact .single (.editClass (bind_pure_mk_eq_ok_iff.1 done).2 fun _ => rfl)
  | setObjectClass c =>
    obtain ⟨-, rfl⟩ := Prod.mk.inj (Except.ok.inj done)
    exact .single (.setObjectClass d c)
  | addField c name isStatic =>
    obtain ⟨f, added⟩ := exists_of_reply done
    have edited := (bind_pure_mk_eq_ok_iff.1 added).2
    exact .tail (.single (.pushField d ⟨name, c, isStatic⟩)) (.editClass edited fun _ => rfl)
  | addMethod c s isStatic params =>
    obtain ⟨m, added⟩ := exists_of_reply done
    exact .single (.addMethod added)
  | addAbstractMethod c s params =>
    obtain ⟨m, added⟩ := exists_of_reply done
    exact .single (.addMethod added)
  | addEntry m =>
    obtain ⟨-, rfl⟩ := Prod.mk.inj (Except.ok.inj done)
    exact .single (.addEntry d m)
  | var m name =>
    obtain ⟨-, rfl⟩ := Prod.mk.inj (Except.ok.inj done)
    split
    · exact .refl
    · exact .single (.pushVar d ⟨m, name⟩)
  | receiver m | param m i =>
    obtain ⟨method, -, same⟩ := bind_eq_ok_iff.1 done
    obtain ⟨-, rfl⟩ := Prod.mk.inj (pure_eq_ok_iff.1 same)
    exact .refl
  | addStmt m s =>
    exact .single (.addStmt (bind_pure_mk_eq_ok_iff.1 done).2)
  | addInvoke m kind target receiver args result =>
    obtain ⟨i, added⟩ := exists_of_reply done
    obtain ⟨method, -, rest⟩ := bind_eq_ok_iff.1 added
    have edited := (bind_pure_mk_eq_ok_iff.1 rest).2
    exact .tail (.single (.pushInvoke d _)) (.addStmt edited)

theorem edits_of_declareAll {d d' : Draft} {l : List Declaration}
    (done : (d.declareAll l).2 = .ok d') : Edits d d' := by
  induction l generalizing d with
  | nil =>
    obtain rfl := Except.ok.inj done
    exact .refl
  | cons s l ih =>
    rw [Draft.declareAll] at done
    split at done
    · cases done
    · rename_i reply d₁ declared
      exact (edits_of_declare declared).trans (ih done)

theorem Sound.edit {d d' : Draft} (sound : d.Sound) (edit : Edit d d') : d'.Sound := by
  cases edit with
  | addClass bare => exact sound.addClass bare
  | editClass done kept => exact sound.editClass done kept
  | addMethod done => exact sound.addMethod done
  | pushVar v => exact sound.pushVar v
  | addStmt done => exact sound.editMethod done fun _ => ⟨rfl, rfl, rfl, rfl⟩
  | setObjectClass c | pushField f | addEntry m | pushInvoke call => exact sound.of_eq rfl rfl rfl

theorem Sound.edits {d d' : Draft} (sound : d.Sound) (edits : Edits d d') : d'.Sound := by
  induction edits with
  | refl => exact sound
  | tail _ edit ih => exact ih.edit edit

theorem Sound.declareAll {d d' : Draft} (sound : d.Sound) {l : List Declaration}
    (done : (d.declareAll l).2 = .ok d') : d'.Sound :=
  sound.edits (edits_of_declareAll done)

end Draft

/-- A program that a front end has declared and that has passed the checks. -/
def Program.Built (p : Program) : Prop :=
  ∃ (l : List Declaration) (d : Draft), (Draft.empty.declareAll l).2 = .ok d ∧ d.build = .ok p

end PointsTo
