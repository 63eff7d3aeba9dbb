import PointsTo.Proofs.Program.Acyclic

/-!
# Checks without a look-up out of range

The checks of a draft look things up themselves: the call of a statement, the class that closes a
cycle, and names for messages. Declarations leave identifiers unchecked nearly everywhere, but what a
check looks up is declared by then, because an earlier check has passed or because declarations keep
it so. Nor do the walk over the supertype links and the indexing of uses come to an identifier that
names nothing.
-/

namespace PointsTo

namespace Check

variable {α β : Type}

/-- A check passes or rejects, and makes no look-up out of range. -/
def Safe (x : Check α) : Prop :=
  ∀ r, x ≠ .error (.outOfRange r)

variable {x : Check α}

theorem safe_ok (a : α) : Safe (.ok a) :=
  fun _ same => nomatch same

theorem safe_reject (e : ProgramError) : Safe (reject e : Check α) :=
  fun _ same => nomatch same

theorem safe_require {passes : Prop} [Decidable passes] (e : ProgramError) :
    Safe (if passes then .ok () else reject e) := by
  split
  · exact safe_ok ()
  · exact safe_reject e

/-- The look-up of something that exists. -/
theorem safe_lookup {x : Except OutOfRange α} (found : ∃ a, x = .ok a) :
    Safe (liftM x : Check α) := by
  obtain ⟨a, rfl⟩ := found
  exact safe_ok a

/-- A check that comes after another can rely on it. -/
theorem Safe.bind {f : α → Check β} (first : Safe x) (rest : ∀ a, x = .ok a → Safe (f a)) :
    Safe (x >>= f) := by
  intro r same
  rcases bind_eq_error_iff.1 same with failed | ⟨a, passed, failed⟩
  · exact first r failed
  · exact rest a passed r failed

theorem Safe.forM {f : α → Check Unit} {l : List α} (each : ∀ a ∈ l, Safe (f a)) :
    Safe (l.forM f) := by
  intro r same
  obtain ⟨a, mem, failed⟩ := exists_of_forM_eq_error same
  exact each a mem r failed

end Check

namespace Program

open Check

variable {p : Program}

/-! ## Single checks -/

theorem safe_checkClass (r : Referrer) (c : ClassId) : Safe (p.checkClass r c) :=
  safe_require _

theorem safe_checkType (r : Referrer) (ty : Ty) : Safe (p.checkType r ty) := by
  induction ty with
  | ref c => exact safe_checkClass r c
  | array elem ih => exact ih

theorem safe_checkField (r : Referrer) (f : FieldId) : Safe (p.checkField r f) :=
  safe_require _

theorem safe_checkVar (m : MethodId) (name : String) (v : VarId) : Safe (p.checkVar m name v) :=
  safe_require _

theorem safe_checkEntry (m : MethodId) : Safe (p.checkEntry m) :=
  safe_require _

theorem safe_checkCaller (m : MethodId) (name : String) (s : Stmt) :
    Safe (p.checkCaller m name s) := by
  cases s with
  | invoke i => exact safe_require _
  | _ => exact safe_ok ()

section Call

variable {i : InvokeId} {call : Invoke} (described : p.invokes[i.index]? = some call)
include described

theorem exists_invokeAt : ∃ call, p.invokeAt i = .ok call :=
  ⟨call, fetch_eq_ok_iff.2 described⟩

theorem safe_checkInvoke (name : String) : Safe (p.checkInvoke name i) := by
  refine (safe_lookup (exists_invokeAt described)).bind fun found _ => ?_
  refine (safe_checkClass _ _).bind fun _ _ => ?_
  split
  · exact safe_reject _
  · exact safe_ok ()

end Call

/-! ## Statements and methods -/

/-- By the time that a statement is checked against its variables and operands, its call is known to
exist. -/
theorem safe_checkStmt (m : MethodId) (name : String) (s : Stmt) :
    Safe (p.checkStmt m name s) := by
  refine (safe_checkCaller m name s).bind fun _ caller => ?_
  have vars : ∃ vs, s.vars p = .ok vs := by
    cases s with
    | invoke i =>
      obtain ⟨call, described, -⟩ := container_of_checkCaller caller
      obtain ⟨call, found⟩ := exists_invokeAt described
      exact ⟨call.vars, bind_eq_ok_iff.2 ⟨call, found, rfl⟩⟩
    | loadField lhs access => cases access <;> exact ⟨_, rfl⟩
    | storeField access rhs => cases access <;> exact ⟨_, rfl⟩
    | _ => exact ⟨_, rfl⟩
  refine (safe_lookup vars).bind fun vs _ => ?_
  refine (Safe.forM fun v _ => safe_checkVar m name v).bind fun _ _ => ?_
  cases s with
  | new lhs ty => exact safe_checkType _ ty
  | loadField lhs access => exact safe_checkField _ _
  | storeField access rhs => exact safe_checkField _ _
  | invoke i =>
    obtain ⟨call, described, -⟩ := container_of_checkCaller caller
    exact safe_checkInvoke described name
  | _ => exact safe_ok ()

theorem safe_checkMethod {m : MethodId} {method : Method} (named : ∃ name, p.methodName m = .ok name) :
    Safe (p.checkMethod m method) := by
  refine (safe_lookup named).bind fun name _ => ?_
  have body := Safe.forM fun s (_ : s ∈ method.body.toList) => safe_checkStmt (p := p) m name s
  split
  · exact (safe_reject _).bind fun _ _ => body
  · exact body

/-! ## Classes -/

theorem eq_of_checkClass {r : Referrer} {c : ClassId} {e : Fault ProgramError}
    (h : p.checkClass r c = .error e) : e = .failed (.undeclaredClass c r) := by
  unfold checkClass at h
  split at h
  · cases h
  · exact (Except.error.inj h).symm

/-- A class is reported as undeclared before the walk over the supertype links, or all links lead to
declared classes. -/
theorem undeclaredClass_or_declared :
    (∃ c r, p.checkClasses = .error (.failed (.undeclaredClass c r))) ∨
      ∀ c above, p.Extends c above → above.index < p.classes.size := by
  cases links : p.classes.toList.forM fun c => c.supertypes.forM (p.checkClass (.classNamed c.name))
    with
  | ok a =>
    refine Or.inr fun c above => declared_of_supertypes fun i decl => ?_
    exact supertypes_of_checkClass links
  | error e =>
    obtain ⟨decl, -, failed⟩ := exists_of_forM_eq_error links
    obtain ⟨c, -, failed⟩ := exists_of_forM_eq_error failed
    obtain rfl := eq_of_checkClass failed
    exact Or.inl ⟨c, .classNamed decl.name, bind_eq_error_iff.2 (Or.inl links)⟩

/-- A class that closes a cycle is declared, as all supertypes are when the walk begins. -/
theorem safe_checkClasses : Safe p.checkClasses := by
  refine (Safe.forM fun decl _ => Safe.forM fun c _ => safe_checkClass _ c).bind fun _ links => ?_
  refine (Safe.forM fun c _ => safe_checkClass _ c).bind fun _ _ => ?_
  split
  · rename_i c cyclic
    obtain ⟨below, link⟩ := exists_extends_of_cyclicClass? cyclic
    have inside := declared_of_supertypes (fun i decl => supertypes_of_checkClass links) link
    exact (safe_lookup (exists_fetch_eq_ok_iff.2 inside)).bind fun _ _ => safe_reject _
  · exact safe_ok ()

/-! ## Drafts -/

theorem safe_check {d : Draft} (sound : d.Sound) : Safe d.program.check := by
  refine safe_checkClasses.bind fun _ _ => ?_
  refine Safe.bind (Safe.forM fun m listed => ?_) fun _ _ => Safe.forM fun m _ => safe_checkEntry m
  obtain ⟨method, lookup⟩ := exists_fetch_eq_ok_iff.2 (mem_methodIds.1 listed)
  refine (safe_lookup ⟨method, lookup⟩).bind fun method' _ => safe_checkMethod ?_
  have declared := fetch_eq_ok_iff.1 lookup
  exact (sound.methods m.index method declared).exists_methodName declared

end Program

/-- A draft is finished without a look-up out of range. -/
structure Draft.Safe (d : Draft) : Prop where
  build : Check.Safe d.build
  /-- The walk over the supertype links, if it takes place, stays among the declared classes. -/
  supertypes : (∃ c r, d.program.checkClasses = .error (.failed (.undeclaredClass c r))) ∨
    ∀ c above, d.program.Extends c above → above.index < d.program.classes.size
  /-- The indexing of uses looks up the calls of statements. -/
  calls : d.program.check = .ok () → ∀ s ∈ d.program.stmts, ∀ i, s.call? = some i →
    i.index < d.program.invokes.size
  /-- The indexing of uses writes to the records of bases and receivers. -/
  uses : d.program.check = .ok () → ∀ s ∈ d.program.stmts, ∀ v use,
    s.use? d.program.invokes = some (v, use) → v.index < d.program.vars.size

theorem Draft.Sound.safe {d : Draft} (sound : d.Sound) : d.Safe where
  build := (Program.safe_check sound).bind fun _ _ => Check.safe_ok _
  supertypes := Program.undeclaredClass_or_declared
  calls passed s mem i same := by
    obtain ⟨m, j, stands⟩ := Program.mem_stmts.1 mem
    cases s <;> cases same
    obtain ⟨call, described, -⟩ := ((Program.checked_of_check passed).stmts m j _ stands).called i rfl
    exact (Array.getElem?_eq_some_iff.1 described).1
  uses passed s mem v use same := by
    obtain ⟨m, j, stands⟩ := Program.mem_stmts.1 mem
    obtain ⟨vs, vars, owned⟩ := ((Program.checked_of_check passed).stmts m j s stands).vars
    obtain ⟨var, found, -⟩ := owned v (Program.mem_vars_of_stands (use?_eq_some_iff.1 same) vars)
    exact (Array.getElem?_eq_some_iff.1 found).1

end PointsTo
