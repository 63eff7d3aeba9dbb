import PointsTo.Proofs.Solver.Running

/-!
# Solutions

A finished run has handled everything that it says, so no inclusion rule adds to it: what it says is
the least solution of the rules. It has met no call that cannot be made.
-/

namespace PointsTo

open Inclusion

variable {P : Problem} {q : Policy}

namespace SolverState

variable {s : SolverState P}

/-- The state of an analysis after a run to the end. -/
structure Finished (q : Policy) (s : SolverState P) : Prop where
  grounded : s.Grounded q
  delivering : s.Delivering
  empty : s.worklist.toList = []
  handled {f : Fact} : s.Holds f → s.Handled q f
  answered {kind : CallKind} {site : CallPoint} {a : Activation} :
    s.Holds (.calls kind site a) → s.Holds (.reachable a)
  entries : P.program.entries ≠ []
  entered {m : MethodId} : m ∈ P.program.entries → s.Holds (.reachable ⟨[], m⟩)

/-- No state says anything before its run. -/
theorem not_holds_initial (f : Fact) : ¬(initial P).Holds f := by
  intro holds
  cases f with
  | reachable a =>
    obtain ⟨m, listed, -⟩ := holds
    exact absurd listed List.not_mem_nil
  | pointsTo l o =>
    obtain ⟨p, x, -, -, set, found, -⟩ := holds
    simp [initial, ElementStore.empty] at found
  | calls kind site a =>
    obtain ⟨e, listed, -⟩ := holds
    exact absurd listed List.not_mem_nil

theorem finished_of_solve (lawful : P.Lawful q) {bound : Nat} (fits : P.program.Fits bound)
    (run : Solve.solve (initial P) = .ok () s) : s.Finished q := by
  have indexed : (initial P).flow.Indexed := FlowGraph.indexed_empty
  have meets := Solve.solve_meets lawful fits (grounded_initial lawful) indexed
  obtain ⟨grounded, progress, empty, entered⟩ := meets.ok run
  have moved := (Solve.solve_moves fits (initial P)).ok run
  obtain ⟨some, running⟩ := entered rfl
  refine ⟨grounded, delivering_of_changes moved.changes delivering_initial, empty,
    fun holds => ?_, fun holds => ?_, some, fun listed => running _ listed⟩
  · exact (progress.handled holds).resolve_left (not_holds_initial _)
  · rcases progress.answered holds with old | runs | ⟨m, owed, -⟩
    · exact absurd old (not_holds_initial _)
    · exact runs
    · exact absurd owed List.not_mem_nil

theorem forall_mem_three {facts : Fact → Prop} {f g k : Fact} (held : ∀ x ∈ [f, g, k], facts x) :
    facts f ∧ facts g ∧ facts k := by
  simpa using held

namespace Finished

variable (lawful : P.Lawful q) (finished : s.Finished q)
include finished

theorem holds_of_sends {l : Location} {o : HeapObj} (sends : s.Sends l o) :
    s.Holds (.pointsTo l o) :=
  SolverState.holds_of_sends finished.empty sends

/-- What a statement asks for is done when its method can run. -/
theorem executed {t : Trail} {m : MethodId} {i : Nat} {stmt : Stmt}
    (reached : s.Holds (.reachable ⟨t, m⟩)) (stands : P.program.stmt? m i = some stmt) :
    s.Executed q t m i stmt :=
  finished.handled reached i stmt stands

include lawful

/-- Everything at the source of a flow edge is at its target. -/
theorem holds_of_flowsTo {l l' : Location} {o : HeapObj} (flows : s.FlowsTo l l')
    (holds : s.Holds (.pointsTo l o)) : s.Holds (.pointsTo l' o) := by
  obtain ⟨e, edge, source, target⟩ := flows
  obtain ⟨p, x, place, object, here⟩ := holds
  have distinct := finished.grounded.distinctSites lawful
  obtain rfl := locationAt?_injective distinct source place
  exact finished.holds_of_sends ⟨e.target, x, target, object, finished.delivering.sent edge here⟩

/-- What a statement does with the objects of one of its variables is done for each of them. -/
theorem served {t : Trail} {m : MethodId} {i : Nat} {stmt : Stmt} {v : VarId} {o : HeapObj}
    (use : Use) (stands : P.program.stmt? m i = some stmt)
    (seen : use.Stands P.program.invokes v stmt) (owns : P.program.Owns m v)
    (holds : s.Holds (.pointsTo (.var t v) o)) :
    s.Served q t o use := by
  obtain ⟨var, declared, rfl⟩ := owns
  have has := (lawful.program.uses v var declared use).2 ⟨i, stmt, stands, seen⟩
  exact finished.handled holds var declared use has

/-- A call on a variable is made on each of its objects. -/
theorem served_invoke {t : Trail} {m : MethodId} {i : InvokeId} {call : Invoke} {recv : VarId}
    {o : HeapObj} (site : CallIn P.hierarchy m i call) (receiver : call.receiver = some recv)
    (holds : s.Holds (.pointsTo (.var t recv) o)) : s.Served q t o (.invoke i) := by
  obtain ⟨position, stands⟩ := site.stmt
  have found : P.program.invokeAt i = .ok call := fetch_eq_ok_iff.2 site.call
  have vars : (Stmt.invoke i).vars P.program = .ok call.vars := by
    rw [Stmt.vars, found]
    rfl
  have used : recv ∈ call.vars := by simp [Invoke.vars, receiver]
  exact finished.served lawful (.invoke i) stands ⟨rfl, call, site.call, receiver⟩
    (lawful.program.owns stands vars used) holds

/-- Places that a statement or a call connects have a flow edge. -/
theorem flowsTo_of_flow {l l' : Location} (connects : Flow P.hierarchy s.Holds l l') :
    s.FlowsTo l l' := by
  cases connects with
  | copy reached stmt => exact finished.executed reached stmt
  | loadStatic reached stmt => exact finished.executed reached stmt
  | storeStatic reached stmt => exact finished.executed reached stmt
  | loadField _ held stmt =>
    have owns := lawful.program.owns stmt rfl (List.mem_cons_of_mem _ List.mem_cons_self)
    exact finished.served lawful (.loadField _ _) stmt rfl owns held
  | storeField _ held stmt =>
    have owns := lawful.program.owns stmt rfl List.mem_cons_self
    exact finished.served lawful (.storeField _ _) stmt rfl owns held
  | loadArray _ held stmt =>
    have owns := lawful.program.owns stmt rfl (List.mem_cons_of_mem _ List.mem_cons_self)
    exact finished.served lawful (.loadArray _) stmt rfl owns held
  | storeArray _ held stmt =>
    have owns := lawful.program.owns stmt rfl List.mem_cons_self
    exact finished.served lawful (.storeArray _) stmt rfl owns held
  | argument called described declared passed =>
    have wired : s.Wired _ _ := finished.handled called
    exact wired.arguments described declared _ passed
  | result called described declared assigned returned =>
    have wired : s.Wired _ _ := finished.handled called
    exact wired.results described declared assigned _ returned

/-- The rules add nothing to a finished run. -/
theorem closed : Closed P.hierarchy q s.Holds := by
  intro premises conclusion rule held
  have flows {l l' : Location} {o : HeapObj} (connects : Flow P.hierarchy s.Holds l l')
      (here : s.Holds (.pointsTo l o)) : s.Holds (.pointsTo l' o) :=
    finished.holds_of_flowsTo lawful (finished.flowsTo_of_flow lawful connects) here
  cases rule with
  | entry listed => exact finished.entered listed
  | new stmt =>
    obtain ⟨reached, -⟩ := List.forall_mem_cons.1 held
    exact finished.holds_of_sends (finished.executed reached stmt)
  | copy stmt =>
    obtain ⟨reached, source⟩ := List.forall_mem_cons.1 held
    exact flows (.copy reached stmt) (source _ List.mem_cons_self)
  | loadStatic stmt =>
    obtain ⟨reached, source⟩ := List.forall_mem_cons.1 held
    exact flows (.loadStatic reached stmt) (source _ List.mem_cons_self)
  | storeStatic stmt =>
    obtain ⟨reached, source⟩ := List.forall_mem_cons.1 held
    exact flows (.storeStatic reached stmt) (source _ List.mem_cons_self)
  | loadField stmt =>
    obtain ⟨reached, base, source⟩ := forall_mem_three held
    exact flows (.loadField reached base stmt) source
  | storeField stmt =>
    obtain ⟨reached, base, source⟩ := forall_mem_three held
    exact flows (.storeField reached base stmt) source
  | loadArray stmt =>
    obtain ⟨reached, base, source⟩ := forall_mem_three held
    exact flows (.loadArray reached base stmt) source
  | storeArray stmt =>
    obtain ⟨reached, base, source⟩ := forall_mem_three held
    exact flows (.storeArray reached base stmt) source
  | callStatic site kind target =>
    obtain ⟨reached, -⟩ := List.forall_mem_cons.1 held
    obtain ⟨position, stands⟩ := site.stmt
    exact (finished.executed reached stands _ _ site.call kind target).2
  | callOn site receiver target =>
    obtain ⟨-, arrived⟩ := List.forall_mem_cons.1 held
    have served := finished.served_invoke lawful site receiver (arrived _ List.mem_cons_self)
    exact (served _ _ _ site.call target).2.1
  | receiver site receiver target declared bound =>
    obtain ⟨-, arrived⟩ := List.forall_mem_cons.1 held
    have served := finished.served_invoke lawful site receiver (arrived _ List.mem_cons_self)
    obtain ⟨self, bound', sends⟩ := (served _ _ _ site.call target).2.2 _ declared
    rw [bound] at bound'
    obtain rfl := Option.some.inj bound'
    exact finished.holds_of_sends sends
  | callee =>
    obtain ⟨called, -⟩ := List.forall_mem_cons.1 held
    exact finished.answered called
  | argument described declared passed =>
    obtain ⟨called, source⟩ := List.forall_mem_cons.1 held
    exact flows (.argument called described declared passed) (source _ List.mem_cons_self)
  | result described declared assigned returned =>
    obtain ⟨called, source⟩ := List.forall_mem_cons.1 held
    exact flows (.result called described declared assigned returned)
      (source _ List.mem_cons_self)

/-- A finished run says what can be derived and nothing else. -/
theorem holds_iff {f : Fact} : s.Holds f ↔ P.Derives q f := by
  constructor
  · exact finished.grounded.derives
  · exact (finished.closed lawful).of_derivable

theorem holds {f : Fact} (derived : P.Derives q f) : s.Holds f :=
  (finished.holds_iff lawful).2 derived

theorem not_badCall : ¬BadCall P.hierarchy q := by
  intro bad
  cases bad with
  | static reached site kind target declared arity =>
    obtain ⟨position, stands⟩ := site.stmt
    have executed := finished.executed (finished.holds lawful reached) stands
    exact arity ((executed _ _ site.call kind target).1 _ declared)
  | onObject reached site receiver held target declared unfit =>
    have served := finished.served_invoke lawful site receiver (finished.holds lawful held)
    obtain ⟨fitting, -, bound⟩ := served _ _ _ site.call target
    rcases unfit with none | arity
    · obtain ⟨self, some, -⟩ := bound _ declared
      rw [none] at some
      cases some
    · exact arity (fitting _ declared)

end Finished

end SolverState

end PointsTo
