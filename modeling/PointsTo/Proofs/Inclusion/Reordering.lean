import Mathlib.Data.List.Basic
import Mathlib.Logic.Equiv.Defs
import PointsTo.Proofs.Hierarchy.Alike
import PointsTo.Proofs.Inclusion.Simulation
import PointsTo.Proofs.Program.WellFormed

/-!
# Programs in another order

Two programs may differ in nothing but the order of the statements in each body and of the entries.
What depends on that order, such as the positions of calls and the lists of uses, differs with it.
Each of the two programs simulates the other, with allocations matched through the permutation.
-/

namespace PointsTo

open Inclusion

/-- A call site without its position. -/
def Invoke.detached (call : Invoke) : Invoke :=
  { call with position := 0 }

/-- A variable without its uses. -/
def Var.unused (v : Var) : Var :=
  { v with uses := .none }

/-- A program has the declarations of another, its bodies have the same statements in some order, and
its entries are the same in some order. -/
structure Program.Reordering (p p' : Program) where
  /-- Where the statement at a position of a body goes. -/
  position : MethodId → Equiv.Perm Nat
  stmts (m : MethodId) (i : Nat) : p'.stmt? m (position m i) = p.stmt? m i
  classes : p'.classes = p.classes
  fields : p'.fields = p.fields
  methods : p'.methods.map Method.head = p.methods.map Method.head
  vars : p'.vars.map Var.unused = p.vars.map Var.unused
  invokes : p'.invokes.map Invoke.detached = p.invokes.map Invoke.detached
  entries : p'.entries.Perm p.entries
  objectClass : p'.objectClass = p.objectClass

namespace Program.Reordering

variable {p p' : Program} (σ : p.Reordering p')

/-- The way back. -/
def symm : p'.Reordering p where
  position m := (σ.position m).symm
  stmts m i := by
    rw [← σ.stmts, Equiv.apply_symm_apply]
  classes := σ.classes.symm
  fields := σ.fields.symm
  methods := σ.methods.symm
  vars := σ.vars.symm
  invokes := σ.invokes.symm
  entries := σ.entries.symm
  objectClass := σ.objectClass.symm

/-! ## Matching allocations -/

/-- The allocation that an allocation goes to. -/
def site (s : AllocSite) : AllocSite :=
  ⟨s.method, σ.position s.method s.position⟩

/-- The element of a context that an element goes to. -/
def mark : Mark → Mark
  | .callSite i => .callSite i
  | .object s => .object (σ.site s)
  | .type c => .type c

@[simp]
theorem symm_site_site (s : AllocSite) : σ.symm.site (σ.site s) = s := by
  simp [site, symm]

theorem site_symm_site (s : AllocSite) : σ.site (σ.symm.site s) = s :=
  σ.symm.symm_site_site s

theorem symm_mark_mark (e : Mark) : σ.symm.mark (σ.mark e) = e := by
  cases e <;> simp [mark]

theorem site_injective : Function.Injective σ.site :=
  Function.LeftInverse.injective σ.symm_site_site

theorem mark_injective : Function.Injective σ.mark :=
  Function.LeftInverse.injective σ.symm_mark_mark

/-! ## Simulation -/

section Simulation

include σ

/-- Calls reach the same methods in both programs. -/
theorem alike {h h' : Hierarchy} (same : h.program = p) (same' : h'.program = p') : h.Alike h' where
  classes := by rw [same, same', σ.classes]
  heads := by rw [same, same', σ.methods]
  objectClass := by rw [same, same', σ.objectClass]

theorem entries_eq_nil_iff : p.entries = [] ↔ p'.entries = [] := by
  constructor
  · intro none
    exact (none ▸ σ.entries).eq_nil
  · intro none
    exact (none ▸ σ.entries.symm).eq_nil

theorem exists_invoke {i : Nat} {call : Invoke} (described : p.invokes[i]? = some call) :
    ∃ n, p'.invokes[i]? = some { call with position := n } := by
  have same := congrArg (·[i]?) σ.invokes
  simp only [Array.getElem?_map, described, Option.map_some] at same
  obtain ⟨call', described', detached⟩ := Option.map_eq_some_iff.1 same
  refine ⟨call'.position, ?_⟩
  rw [described']
  cases call
  cases call'
  simp_all [Invoke.detached]

/-- A method keeps its head, and it returns the same variables in some order. -/
theorem exists_method (wf : p.WellFormed) (wf' : p'.WellFormed) {i : Nat} {method : Method}
    (declared : p.methods[i]? = some method) :
    ∃ body returned, p'.methods[i]? = some { method with body := body, returned := returned } ∧
      ∀ v ∈ method.returned, v ∈ returned := by
  have same := congrArg (·[i]?) σ.methods
  simp only [Array.getElem?_map, declared, Option.map_some] at same
  obtain ⟨method', declared', heads⟩ := Option.map_eq_some_iff.1 same
  refine ⟨method'.body, method'.returned, ?_, fun v returned => ?_⟩
  · rw [declared']
    cases method
    cases method'
    simp_all [Method.head]
  · obtain ⟨j, stands⟩ := (wf.returned ⟨i⟩ method declared v).1 returned
    exact (wf'.returned ⟨i⟩ method' declared' v).2 ⟨σ.position ⟨i⟩ j, (σ.stmts _ _).trans stands⟩

variable {h h' : Hierarchy} (wf : h.program.WellFormed) (wf' : h'.program.WellFormed)
  (same : h.program = p) (same' : h'.program = p')
include wf wf' same same'

theorem embeds : h.Embeds h' σ.site := by
  subst same same'
  have alike : h.Alike h' := σ.alike rfl rfl
  exact {
    entries := fun listed => σ.entries.symm.subset listed
    stmts := fun stands => ⟨_, rfl, (σ.stmts _ _).trans stands⟩
    invokes := σ.exists_invoke
    methods := σ.exists_method wf wf'
    resolveStatic := alike.resolveStatic
    calleeOn := alike.calleeOn }

/-- A program in another order simulates the program under every policy on contexts. -/
def simulation (q : Policy) : Simulation h h' q q where
  onTrail := List.map σ.mark
  onHeap := List.map σ.mark
  onSite := σ.site
  embeds := σ.embeds wf wf' same same'
  nil := rfl
  call t i := q.map_onCall σ.mark (.callSite i) t
  receiver {o a} t i _ :=
    q.map_onReceiver σ.mark (.callSite i) (.object o.site) (.type a.owner) t o.trail
  alloc t := q.map_onAlloc σ.mark t

theorem faithful (q : Policy) : (σ.simulation wf wf' same same' q).Faithful where
  onHeap := rfl
  trails := List.map_injective_iff.2 σ.mark_injective
  sites := σ.site_injective

/-- Both programs meet a call that cannot be made, or neither does. -/
theorem badCall_iff (q : Policy) : BadCall h q ↔ BadCall h' q :=
  ⟨(σ.simulation wf wf' same same' q).badCall, (σ.symm.simulation wf' wf same' same q).badCall⟩

end Simulation

end Program.Reordering

end PointsTo
