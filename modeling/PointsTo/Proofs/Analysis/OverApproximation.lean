import PointsTo.Proofs.Analysis.Refinement
import PointsTo.Proofs.Hierarchy.CallGraph

/-!
# Call graphs by declared types have all calls

The call graph of the class hierarchy over-approximates the call graph of an analysis, as long as the
receivers of virtual and interface calls are of the types that the calls name. Static and special
calls are resolved alike in both, whatever the receivers are.
-/

namespace PointsTo

open Inclusion

/-- Whether an object of a type may be the receiver of a call on a class: an object of a class if the
class is the named one or below it, an array if the object class is, or if there is none. -/
def Hierarchy.accepts (h : Hierarchy) (owner : ClassId) : Ty → Except OutOfRange Bool
  | .ref c => return c ∈ (← h.subtypes owner)
  | .array _ =>
    match h.program.objectClass with
    | some root => return root ∈ (← h.subtypes owner)
    | none => return true

/-- The calls whose target depends on the type of the receiver. -/
def CallKind.IsDynamic (k : CallKind) : Prop :=
  k = .virtual ∨ k = .interface

variable {P : Problem} {q : Policy} {h : Hierarchy}

/-- The receivers of virtual and interface calls of reachable methods under contexts hold only objects
that the calls accept. -/
def Result.TypeCorrect (r : Result P) : Prop :=
  ∀ x ∈ r.state.callGraph.reachable.toList, ∀ m, r.state.elements.csMethodAt x = .ok m →
    ∀ i call, CallIn P.hierarchy m.method i call → call.kind.IsDynamic →
    ∀ recv, call.receiver = some recv → ∀ held, r.csPointsTo m.context recv = .ok held →
    ∀ o ∈ held, ∀ obj, r.objectAt o.obj = .ok obj →
      P.hierarchy.accepts call.target.owner obj.ty = .ok true

/-! ## Calls of the least solution -/

namespace Inclusion

/-- The least solution has only receivers that the calls accept. -/
def TypeCorrect (h : Hierarchy) (q : Policy) : Prop :=
  ∀ t m i call recv o a, Derivable h q (.reachable ⟨t, m⟩) → CallIn h m i call →
    call.kind.IsDynamic → call.receiver = some recv → Derivable h q (.pointsTo (.var t recv) o) →
    h.program.allocation? o.site = some a → h.accepts call.target.owner a.ty = .ok true

/-- What a call reaches on an object that it accepts, it may reach by the declared types. -/
theorem Dispatches.mayCall {call : Invoke} {o : HeapObj} {a : Allocation} {callee : MethodId}
    (target : Dispatches h call o a callee)
    (accepted : call.kind.IsDynamic → h.accepts call.target.owner a.ty = .ok true) :
    h.MayCall call callee := by
  have reached := target.callee
  have dynamic : call.kind.IsDynamic →
      h.dispatchOn a.ty call.target.subsignature = .ok (some callee) →
      ∃ l, h.subtypes call.target.owner = .ok l ∧
        ∃ c ∈ l, h.dispatch c call.target.subsignature = .ok (some callee) := by
    intro kind found
    have fits := accepted kind
    unfold Hierarchy.accepts at fits
    unfold Hierarchy.dispatchOn at found
    split at fits
    · rename_i c ty
      obtain ⟨l, subtypes, listed⟩ := bind_eq_ok_iff.1 fits
      rw [ty] at found
      exact ⟨l, subtypes, c, of_decide_eq_true (pure_eq_ok_iff.1 listed), found⟩
    · rename_i elem ty
      -- arrays have the methods of the object class, and none without it
      rw [ty] at found
      cases root : h.program.objectClass with
      | none =>
        simp [root] at found
      | some c =>
        rw [root] at fits found
        obtain ⟨l, subtypes, listed⟩ := bind_eq_ok_iff.1 fits
        exact ⟨l, subtypes, c, of_decide_eq_true (pure_eq_ok_iff.1 listed), found⟩
  unfold Hierarchy.calleeOn at reached
  unfold Hierarchy.MayCall
  unfold CallKind.IsDynamic at dynamic
  cases kind : call.kind with
  | static => exact absurd kind target.dynamic
  | special =>
    simp only [kind] at reached
    exact reached
  | virtual =>
    simp only [kind] at reached
    exact dynamic (Or.inl kind) reached
  | interface =>
    simp only [kind] at reached
    exact dynamic (Or.inr kind) reached

/-- A call graph without contexts has what a fact says about methods and calls. -/
def Shows (g : MethodCallGraph) : Fact → Prop
  | .reachable a => a.method ∈ g.reachable.toList
  | .pointsTo _ _ => True
  | .calls kind site a =>
    ⟨kind, site.invoke, a.method⟩ ∈ g.edges.toList ∧ a.method ∈ g.reachable.toList

section Covers

variable {g : MethodCallGraph} (covers : h.Covers g)
include covers

/-- Every call of the least solution stands in a reachable method. If the call graph has this method,
it has the call, unless the call may have a receiver that it does not accept. -/
theorem exists_caller {premises : List Fact} {kind : CallKind} {site : CallPoint} {a : Activation}
    (rule : Rule h q premises (.calls kind site a)) (derived : ∀ f ∈ premises, Derivable h q f)
    (accepted : kind.IsDynamic → TypeCorrect h q) :
    ∃ t m call, .reachable ⟨t, m⟩ ∈ premises ∧ CallIn h m site.invoke call ∧
      (m ∈ g.reachable.toList → Shows g (.calls kind site a)) := by
  cases rule with
  | @callStatic t m i call callee site kind target =>
    refine ⟨t, m, call, List.mem_cons_self, site, fun running => ?_⟩
    have may : h.MayCall call callee := by
      unfold Hierarchy.MayCall
      simp only [kind]
      exact target
    have edge := covers.calls running site may
    rw [kind] at edge
    exact edge
  | @callOn t m i call recv o a callee site receiver target =>
    obtain ⟨reached, held⟩ := List.forall_mem_cons.1 derived
    refine ⟨t, m, call, List.mem_cons_self, site, fun running => ?_⟩
    apply covers.calls running site
    apply target.mayCall
    intro dynamic
    exact accepted dynamic t m i call recv o a reached site dynamic receiver
      (held _ List.mem_cons_self) target.allocation

/-- A call graph by declared types has all methods and calls of the least solution, if its receivers
are type-correct. -/
theorem shows_of_derivable (correct : TypeCorrect h q) {f : Fact} (derived : Derivable h q f) :
    Shows g f := by
  induction derived with
  | @step premises conclusion rule derived ih =>
    cases conclusion with
    | pointsTo l o => trivial
    | calls kind site a =>
      obtain ⟨t, m, call, premise, -, shows⟩ := exists_caller covers rule derived fun _ => correct
      exact shows (ih _ premise)
    | reachable a =>
      cases rule with
      | entry listed => exact covers.entries listed
      | callee => exact (ih _ List.mem_cons_self).2

end Covers

end Inclusion

/-! ## Calls of results -/

namespace Result

variable {r : Result P} (lawful : P.Lawful q) (complete : r.Complete q)
include lawful complete

/-- What a variable holds under a context is an answer about it, with the objects that it comes
from. -/
theorem exists_csPointsTo {t : Trail} {v : VarId} {o : HeapObj} {c : ContextId}
    (holds : r.state.Holds (.pointsTo (.var t v) o)) (trail : r.state.trail? c = some t) :
    ∃ held, r.csPointsTo c v = .ok held ∧ ∃ x ∈ held, ∃ obj, r.objectAt x.obj = .ok obj ∧
      P.program.allocation? o.site = some ⟨obj.ty, obj.containerClass⟩ := by
  have grounded := complete.finished.grounded
  have distinct := grounded.distinctSites lawful
  obtain ⟨p, x, place, object, set, found, mem⟩ := holds
  obtain ⟨k, known, read⟩ := SolverState.locationAt?_eq_some_iff.1 place
  obtain ⟨c', rfl, trail'⟩ := SolverState.location?_eq_some_var_iff.1 read
  obtain rfl := SolverState.trail?_injective distinct trail trail'
  obtain ⟨held, answered⟩ := exists_mapM_eq_ok (f := r.state.elements.csObjAt) (l := set.toList)
    fun y member => by
      obtain ⟨-, b, -, based, -⟩ := grounded.sent p y (Or.inl ⟨set, found, member⟩)
      exact SolverState.exists_csObjAt based
  obtain ⟨cs, obj, named, allocated, -, site⟩ := SolverState.heapObj?_eq_some_iff.1 object
  have origin := (lawful.heap.allocated grounded.heap allocated).2
  rw [site] at origin
  refine ⟨held, ?_, cs, ?_, obj, ?_, origin⟩
  · have asked := ElementStore.findPointer?_eq_some_iff.2 known
    have sets := ElementStore.pointsToSet_eq_ok_iff.2 found
    simp only [csPointsTo, csPointsToAt, asked, sets, bind, Except.bind]
    exact answered
  · exact (mem_of_mapM_eq_ok answered).2 ⟨x, mem, fetch_eq_ok_iff.2 named⟩
  · rw [objectAt, lawful.heap.objectAt]
    exact fetch_eq_ok_iff.2 allocated

/-- The answers of a type-correct result show that the least solution is type-correct. -/
theorem TypeCorrect.derivable (correct : r.TypeCorrect) : Inclusion.TypeCorrect P.hierarchy q := by
  intro t m i call recv o a reached site dynamic receiver held allocates
  have holds {f : Fact} (derived : P.Derives q f) : r.state.Holds f :=
    complete.finished.holds lawful derived
  obtain ⟨x, listed, read⟩ := holds reached
  obtain ⟨c, known, trail⟩ := SolverState.activation?_eq_some_iff.1 read
  obtain ⟨held, answered, y, mem, obj, named, origin⟩ :=
    exists_csPointsTo lawful complete (holds held) trail
  have origin : P.program.allocation? o.site = _ := origin
  rw [show P.hierarchy.program.allocation? o.site = P.program.allocation? o.site from rfl, origin]
    at allocates
  obtain rfl := Option.some.inj allocates
  exact correct x listed _ (fetch_eq_ok_iff.2 known) i call site dynamic recv receiver held answered
    y mem obj named

/-- If the calls of a program accept all that the program allocates, its results are type-correct. -/
theorem typeCorrect_of_accepts
    (accepts : ∀ site ∈ P.program.sites, ∀ a, P.program.allocation? site = some a →
      ∀ call ∈ P.program.invokes.toList, P.hierarchy.accepts call.target.owner a.ty = .ok true) :
    r.TypeCorrect := by
  intro x listed m known i call site dynamic recv receiver held answered o mem obj named
  rw [objectAt, lawful.heap.objectAt] at named
  have found := fetch_eq_ok_iff.1 named
  have origin := (lawful.heap.allocated complete.finished.grounded.heap found).2
  have described : call ∈ P.program.invokes.toList :=
    Array.mem_toList_iff.2 (Array.mem_of_getElem? site.call)
  exact accepts obj.site (Program.mem_sites origin) _ origin call described

end Result

/-- A class is allocated that overrides the method of the class that a call names. -/
def overriding : Program :=
  (Program.ofDeclarations? [
    .addClass "Object" none false,
    .addClass "A" (some ⟨0⟩) false,
    .addClass "B" (some ⟨1⟩) false,
    .addMethod ⟨1⟩ ⟨"void run()"⟩ false [],
    .addMethod ⟨2⟩ ⟨"void run()"⟩ false [],
    .addMethod ⟨0⟩ ⟨"void main()"⟩ true [],
    .addEntry ⟨2⟩,
    .var ⟨2⟩ "x",
    .addStmt ⟨2⟩ (.new ⟨2⟩ (.ref ⟨2⟩)),
    .addInvoke ⟨2⟩ .virtual ⟨⟨1⟩, ⟨"void run()"⟩⟩ (some ⟨2⟩) [] none]).getD .empty

theorem built_overriding : overriding.Built :=
  Program.built_of_ofDeclarations? (by decide +kernel)

namespace Config

variable {p : Program}

/-- The call graph by declared types has every static and special call of a result whose method it
has. If the receivers of the result are type-correct, it has all calls and all reachable methods of
the result. -/
theorem callGraph_covers_of_analyze (c : Config) (built : p.Built) :
    ∃ h g, Hierarchy.ofProgram p = .ok h ∧ h.program = p ∧ h.callGraph = .ok g ∧
      ∀ r, (c.problem .bySite h).analyze c.collectStats = .ok r →
        (∀ e ∈ r.callGraph.edges.toList, e.kind = .static ∨ e.kind = .special →
          ∀ call, p.invokes[e.site.index]? = some call → call.container ∈ g.reachable.toList →
          e ∈ g.edges.toList ∧ e.callee ∈ g.reachable.toList) ∧
        (r.TypeCorrect → (∀ e ∈ r.callGraph.edges.toList, e ∈ g.edges.toList) ∧
          ∀ m ∈ r.reachableMethods, m ∈ g.reachable.toList) := by
  have checked := built.wellFormed.toChecked
  obtain ⟨h, hierarchy, same⟩ := Hierarchy.exists_ofProgram checked
  have regular := c.problem_regular built hierarchy
  have wf : h.program.WellFormed := regular.program
  have rows : Hierarchy.Rows h.program.classes.size h := by
    rw [same]
    exact Hierarchy.rows_of_ofProgram checked hierarchy
  obtain ⟨g, found, covers⟩ := Hierarchy.exists_callGraph wf rows
  refine ⟨h, g, hierarchy, same, found, fun r done => ?_⟩
  have complete := Problem.complete_of_analyze regular done
  have derived {f : Fact} (holds : r.state.Holds f) : Derivable h c.policy f :=
    complete.finished.grounded.derives holds
  constructor
  · intro e listed kind call described running
    obtain ⟨t, t', holds⟩ := (complete.calls e).1 listed
    obtain ⟨rule, premises⟩ := derived holds
    -- nothing is assumed of receivers, as the call is not dynamic
    have accepted : e.kind.IsDynamic → Inclusion.TypeCorrect h c.policy := by
      rintro (dynamic | dynamic) <;> simp [dynamic] at kind
    obtain ⟨t₀, m, call', -, site, shows⟩ := exists_caller covers rule premises accepted
    have described' := site.call
    rw [same, described] at described'
    obtain rfl := Option.some.inj described'
    rw [(site.admitted wf).1] at running
    exact shows running
  · intro correct
    have all {f : Fact} (holds : r.state.Holds f) : Shows g f :=
      shows_of_derivable covers (correct.derivable regular.toLawful complete) (derived holds)
    constructor
    · intro e listed
      obtain ⟨t, t', holds⟩ := (complete.calls e).1 listed
      exact (all holds).1
    · intro m listed
      obtain ⟨t, holds⟩ := (complete.methods m).1 listed
      exact all holds

theorem callGraph_covers_of_analyze_overriding : overriding.Built ∧
    ∃ h g r, Hierarchy.ofProgram overriding = .ok h ∧ h.callGraph = .ok g ∧
      (default.problem .bySite h).analyze true = .ok r ∧ r.TypeCorrect ∧
      (∀ e ∈ r.callGraph.edges.toList, e ∈ g.edges.toList) ∧
      ∀ m ∈ r.reachableMethods, m ∈ g.reachable.toList := by
  obtain ⟨h, g, hierarchy, same, found, result⟩ :=
    callGraph_covers_of_analyze default built_overriding
  obtain ⟨r, done⟩ := exists_analyze_of_summarize (c := default) hierarchy (by decide +kernel)
  have regular := default.problem_regular built_overriding hierarchy
  have complete := Problem.complete_of_analyze regular done
  have accepted : (match Hierarchy.ofProgram overriding with
      | .error _ => false
      | .ok h => overriding.sites.all fun site => (overriding.allocation? site).all fun a =>
        overriding.invokes.toList.all fun call =>
          match h.accepts call.target.owner a.ty with
          | .ok accepted => accepted
          | .error _ => false) = true := by
    decide +kernel
  rw [hierarchy] at accepted
  have correct : r.TypeCorrect := by
    apply Result.typeCorrect_of_accepts regular.toLawful complete
    show ∀ site ∈ h.program.sites, ∀ a, h.program.allocation? site = some a →
      ∀ call ∈ h.program.invokes.toList, h.accepts call.target.owner a.ty = .ok true
    intro site listed a allocates call described
    rw [same] at listed allocates described
    have atSite := List.all_eq_true.1 accepted site listed
    rw [allocates] at atSite
    have atCall := List.all_eq_true.1 atSite call described
    cases answer : h.accepts call.target.owner a.ty with
    | error e => simp [answer] at atCall
    | ok b =>
      simp only [answer] at atCall
      rw [atCall]
  exact ⟨built_overriding, h, g, r, hierarchy, found, done, correct, (result r done).2 correct⟩

end Config

end PointsTo
