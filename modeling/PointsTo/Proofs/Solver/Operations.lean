import PointsTo.Proofs.IdSet
import PointsTo.Solver.Run

/-!
# What single operations do

Equations for the operations that change the state of an analysis: the result and the state that an
operation gives from a state. A step delivers the pending propagation at the head of the worklist
and then reacts to the objects that were new.
-/

namespace PointsTo

variable {P : Problem}

namespace SolverState

/-- A state after objects have been added to the set of a location and the new ones have been
scheduled for the targets of its flow edges. -/
def propagated (s : SolverState P) (p : PointerId) (known objects : ObjectSet) : SolverState P :=
  if (known.fresh objects).isEmpty then s
  else { s with
    elements := s.elements.setPointsTo p (known.union objects)
    stats.propagations := s.stats.propagations + (known.fresh objects).size
    worklist := (s.flow.targetsOf p).foldl (fun w t => w.add ⟨t, known.fresh objects⟩) s.worklist }

/-- A state without the head of the worklist. -/
def taken (s : SolverState P) (rest : Worklist) : SolverState P :=
  { s with worklist := rest, stats.iterations := s.stats.iterations + 1 }

/-- A state after the pending propagation at the head of the worklist has been carried out. -/
def delivered (s : SolverState P) (e : Pending) (rest : Worklist) (known : ObjectSet) :
    SolverState P :=
  (s.taken rest).propagated e.target known e.objects

/-- A state with the sizes of its tables and graphs among its counters. -/
def recorded (s : SolverState P) : SolverState P :=
  { s with stats := { s.stats with
    reachableMethods := s.callGraph.reachable.size
    callEdges := s.callGraph.edges.size
    flowEdges := s.flow.size
    pointers := s.elements.pointers.size
    csObjects := s.elements.objects.size
    contexts := s.contexts.size } }

end SolverState

namespace Solve

variable (s : SolverState P)

/-- The rest of a step after a delivery: reacts to the objects that were new to a variable. -/
def react (p : PointerId) (delta : ObjectSet) : Solve P Bool := do
  if delta.isEmpty then return true
  match ← (← get).elements.pointerKey p with
  | .var c v => delta.toList.forM (processObject c v)
  | _ => return true
  return true

/-- Seeds the whole body of a method. -/
def seedMethod (method : CsMethod) : Solve P (List CsMethodId) := do
  seedBody method 0 [] (← P.program.methodAt method.method).body.toList

/-- The rest of a visit to a method after its call sites are known: seeds its body, unless the
method is reachable already. -/
def seedNew (m : CsMethodId) (method : CsMethod) (sites : List CsCallSiteId) :
    Solve P (List CsMethodId) := do
  let (isNew, callGraph) := (← get).callGraph.addReachable m sites
  if !isNew then return []
  modify fun s => { s with callGraph := callGraph }
  seedMethod method

theorem bind_run {α β : Type} (x : Solve P α) (f : α → Solve P β) :
    (x >>= f) s = match x s with
      | .ok a s' => f a s'
      | .error e s' => .error e s' := by
  simp only [bind, EStateM.bind]
  cases x s <;> rfl

theorem bind_run_eq_ok {α β : Type} {x : Solve P α} {f : α → Solve P β} {s s' : SolverState P}
    {b : β} (run : (x >>= f) s = .ok b s') : ∃ a s₁, x s = .ok a s₁ ∧ f a s₁ = .ok b s' := by
  rw [bind_run] at run
  cases first : x s with
  | ok a s₁ =>
    rw [first] at run
    exact ⟨a, s₁, rfl, run⟩
  | error e s₁ =>
    rw [first] at run
    cases run

theorem pure_run {α : Type} (a : α) : (pure a : Solve P α) s = .ok a s := rfl

theorem modify_run (f : SolverState P → SolverState P) :
    (modify f : Solve P Unit) s = .ok () (f s) := rfl

theorem modifyGet_run {α : Type} (f : SolverState P → α × SolverState P) :
    (modifyGet f : Solve P α) s = .ok (f s).1 (f s).2 := rfl

theorem get_run : (get : Solve P (SolverState P)) s = .ok s s := rfl

theorem lookup_run {α : Type} (x : Except OutOfRange α) :
    (liftM x : Solve P α) s = match x with
      | .ok a => .ok a s
      | .error r => .error (.outOfRange r) s := by
  cases x <;> rfl

theorem lookup_run_eq_ok {α : Type} {x : Except OutOfRange α} {s s' : SolverState P} {a : α}
    (run : (liftM x : Solve P α) s = .ok a s') : x = .ok a ∧ s' = s := by
  rw [lookup_run] at run
  cases x with
  | ok b =>
    cases run
    exact ⟨rfl, rfl⟩
  | error r => cases run

theorem pointer_run (k : PointerKey) :
    pointer k s = .ok (s.elements.pointer k).1 { s with elements := (s.elements.pointer k).2 } := rfl

theorem csObj_run (c : ContextId) (o : ObjId) :
    csObj c o s = .ok ⟨(s.elements.objects.intern ⟨c, o⟩).1⟩
      { s with elements := (s.elements.csObj ⟨c, o⟩).2 } := rfl

theorem csMethod_run (c : ContextId) (m : MethodId) :
    csMethod c m s = .ok ⟨(s.elements.methods.intern ⟨c, m⟩).1⟩
      { s with elements := (s.elements.csMethod ⟨c, m⟩).2 } := rfl

theorem csCallSite_run (c : ContextId) (i : InvokeId) :
    csCallSite c i s = .ok ⟨(s.elements.callSites.intern ⟨c, i⟩).1⟩
      { s with elements := (s.elements.csCallSite ⟨c, i⟩).2 } := rfl

theorem select_run (choose : ContextTable → Selection) :
    select choose s = match choose s.contexts with
      | .ok (c, t) => .ok c { s with contexts := t }
      | .error r => .error (.outOfRange r) s := by
  simp only [select, bind_run, get_run, lookup_run]
  cases choose s.contexts <;> rfl

theorem objectOf_run (site : AllocSite) (ty : Ty) :
    objectOf site ty s = match P.heapModel.objectOf P.program site ty s.heap with
      | .error r => .error (.outOfRange r) s
      | .ok (o, h) => match P.heapModel.objectAt h o with
        | .error r => .error (.outOfRange r) { s with heap := h }
        | .ok obj => .ok obj { s with heap := h } := by
  simp only [objectOf, bind_run, get_run, lookup_run]
  cases P.heapModel.objectOf P.program site ty s.heap with
  | error r => rfl
  | ok found =>
    obtain ⟨o, h⟩ := found
    simp only [modify_run]
    cases P.heapModel.objectAt h o <;> rfl

theorem schedule_run (p : PointerId) (objects : ObjectSet) :
    schedule p objects s = .ok () { s with worklist := s.worklist.add ⟨p, objects⟩ } := rfl

theorem addCallEdge_run (e : CallEdge .csCallSite .csMethod) :
    addCallEdge e s =
      .ok (s.callGraph.addEdge e).1 { s with callGraph := (s.callGraph.addEdge e).2 } := rfl

theorem countUnresolved_run :
    countUnresolved s =
      .ok () { s with stats.unresolvedCalls := s.stats.unresolvedCalls + 1 } := rfl

theorem recordSizes_run : recordSizes s = .ok () s.recorded := rfl

theorem addFlow_run (source target : PointerId) :
    addFlow source target s =
      if s.flow.hasEdge ⟨source, target⟩ then .ok false s
      else match s.elements.pointsToSet source with
        | .error r => .error (.outOfRange r) { s with flow := (s.flow.addEdge ⟨source, target⟩).2 }
        | .ok objects => .ok true { s with
            flow := (s.flow.addEdge ⟨source, target⟩).2
            worklist :=
              if objects.isEmpty then s.worklist else s.worklist.add ⟨target, objects⟩ } := by
  rw [addFlow, bind_run, get_run]
  by_cases known : s.flow.hasEdge ⟨source, target⟩
  · simp [FlowGraph.addEdge, known, pure_run]
  · simp only [FlowGraph.addEdge, known, Bool.false_eq_true, if_false, Bool.not_true, bind_run,
      modify_run, get_run, lookup_run]
    cases s.elements.pointsToSet source with
    | error r => rfl
    | ok objects => cases none : objects.isEmpty <;> simp [none, bind_run, schedule_run, pure_run]

theorem forM_schedule_run (objects : ObjectSet) (targets : List PointerId) :
    (targets.forM fun t => schedule t objects) s =
      .ok () { s with worklist := targets.foldl (fun w t => w.add ⟨t, objects⟩) s.worklist } := by
  induction targets generalizing s with
  | nil => rfl
  | cons t targets ih =>
    exact ih { s with worklist := s.worklist.add ⟨t, objects⟩ }

theorem propagate_run (p : PointerId) (objects : ObjectSet) :
    propagate p objects s = match s.elements.pointsToSet p with
      | .error r => .error (.outOfRange r) s
      | .ok known => .ok (known.fresh objects) (s.propagated p known objects) := by
  rw [propagate, bind_run, get_run]
  simp only [bind_run, lookup_run]
  cases s.elements.pointsToSet p with
  | error r => rfl
  | ok known =>
    simp only [IdSet.addAll_eq]
    by_cases none : (known.fresh objects).isEmpty
    · have same : s.propagated p known objects = s := if_pos none
      simp only [if_pos none, same]
      rfl
    · have changed : s.propagated p known objects = _ := if_neg none
      simp only [if_neg none, changed, bind_run, modify_run, get_run, forM_schedule_run]
      rfl

theorem visit_eq (m : CsMethodId) : (visit m : Solve P _) = (do
    let method ← (← get).elements.csMethodAt m
    let sites ← (← P.program.invokesIn method.method).mapM (csCallSite method.context)
    seedNew m method sites) := rfl

theorem seedNew_run (m : CsMethodId) (method : CsMethod) (sites : List CsCallSiteId) :
    seedNew m method sites s =
      if s.callGraph.isReachable m then .ok [] s
      else seedMethod method { s with callGraph := (s.callGraph.addReachable m sites).2 } := by
  rw [seedNew, bind_run, get_run, CallGraph.isReachable]
  by_cases known : s.callGraph.reachable.contains m
  · simp [CallGraph.addReachable, known, pure_run]
  · simp [CallGraph.addReachable, known, bind_run, modify_run]

theorem step_run : step s = match s.worklist.poll with
    | none => .ok false s
    | some (e, rest) => match s.elements.pointsToSet e.target with
      | .error r => .error (.outOfRange r) (s.taken rest)
      | .ok known => react e.target (known.fresh e.objects) (s.delivered e rest known) := by
  have start : step s = match s.worklist.poll with
      | none => .ok false s
      | some (e, rest) => (propagate e.target e.objects >>= react e.target) (s.taken rest) := by
    rw [step, bind_run, poll, modifyGet_run]
    cases s.worklist.poll <;> rfl
  rw [start]
  cases s.worklist.poll with
  | none => rfl
  | some entry =>
    obtain ⟨e, rest⟩ := entry
    have same : (s.taken rest).elements = s.elements := rfl
    simp only [bind_run, propagate_run, same]
    cases s.elements.pointsToSet e.target <;> rfl

end Solve

end PointsTo
