import PointsTo.Element.Basic
import PointsTo.Hierarchy.Dispatch
import PointsTo.Proofs.Context.Policy

/-!
# Inclusion rules

The points-to analysis as a system of rules, without tables, worklists or an order of work. Facts
name contexts by their sequences and objects by their allocation statements, so that they can be
compared between runs. A rule has some facts as premises and one fact as its conclusion; what the
program and its dispatch say stands in its side conditions. `Derivable` is the least set of facts
that the rules allow, and `Closed` says of a set of facts that no rule adds to it.
-/

namespace PointsTo

/-! ## Allocations -/

/-- What an allocation statement says about its objects. -/
structure Allocation where
  /-- The allocated type. -/
  ty : Ty
  /-- The class that declares the allocating method. -/
  owner : ClassId
deriving DecidableEq, Repr

namespace Program

/-- The statement at a position of a method body. -/
def stmt? (p : Program) (m : MethodId) (i : Nat) : Option Stmt := do
  (← p.methods[m.index]?).body[i]?

/-- The allocation at a position of a method body. -/
def allocation? (p : Program) (site : AllocSite) : Option Allocation := do
  let method ← p.methods[site.method.index]?
  match ← method.body[site.position]? with
  | .new _ ty => some ⟨ty, method.owner⟩
  | _ => none

theorem allocation?_eq_some_iff {p : Program} {site : AllocSite} {a : Allocation} :
    p.allocation? site = some a ↔ ∃ method lhs, p.methods[site.method.index]? = some method ∧
      p.stmt? site.method site.position = some (.new lhs a.ty) ∧ method.owner = a.owner := by
  constructor
  · intro allocates
    obtain ⟨method, declared, rest⟩ := Option.bind_eq_some_iff.1 allocates
    obtain ⟨s, listed, shape⟩ := Option.bind_eq_some_iff.1 rest
    split at shape
    · rename_i lhs ty
      obtain rfl := Option.some.inj shape
      exact ⟨method, lhs, declared, Option.bind_eq_some_iff.2 ⟨method, declared, listed⟩, rfl⟩
    · cases shape
  · rintro ⟨method, lhs, declared, stands, owner⟩
    obtain ⟨method', declared', listed⟩ := Option.bind_eq_some_iff.1 stands
    rw [declared] at declared'
    obtain rfl := Option.some.inj declared'
    obtain ⟨ty, c⟩ := a
    obtain rfl : method.owner = c := owner
    exact Option.bind_eq_some_iff.2
      ⟨method, declared, Option.bind_eq_some_iff.2 ⟨.new lhs ty, listed, rfl⟩⟩

end Program

/-- The method that a call reaches on an object of a type; nothing for a static call. -/
def Hierarchy.calleeOn (h : Hierarchy) (call : Invoke) (ty : Ty) :
    Except OutOfRange (Option MethodId) :=
  match call.kind with
  | .static => .ok none
  | .special => h.resolveSpecial call.target
  | .virtual | .interface => h.dispatchOn ty call.target.subsignature

namespace Inclusion

/-! ## Facts -/

/-- An element of a calling context. Objects are named by their allocations. -/
inductive Mark where
  | callSite (i : InvokeId)
  | object (site : AllocSite)
  | type (c : ClassId)
deriving DecidableEq, Repr

/-- A calling context, the latest element last. -/
abbrev Trail := List Mark

/-- An object under a heap context. -/
structure HeapObj where
  trail : Trail
  site : AllocSite
deriving DecidableEq, Repr

/-- A method under a calling context. -/
structure Activation where
  trail : Trail
  method : MethodId
deriving DecidableEq, Repr

/-- A call site under the context of its method. -/
structure CallPoint where
  trail : Trail
  invoke : InvokeId
deriving DecidableEq, Repr

/-- A place that holds objects. -/
inductive Location where
  | var (trail : Trail) (v : VarId)
  | staticField (f : FieldId)
  | instanceField (base : HeapObj) (f : FieldId)
  | arrayIndex (base : HeapObj)
deriving DecidableEq, Repr

/-- What an analysis may find out. -/
inductive Fact where
  | reachable (a : Activation)
  | pointsTo (l : Location) (o : HeapObj)
  | calls (kind : CallKind) (site : CallPoint) (callee : Activation)
deriving DecidableEq, Repr

end Inclusion

open Inclusion

/-! ## Contexts of calls and objects -/

namespace Policy

/-- The context of a method called without a receiver. -/
def callTrail (q : Policy) (caller : Trail) (i : InvokeId) : Trail :=
  q.onCall (.callSite i) caller

/-- The context of a method called on an object. -/
def receiverTrail (q : Policy) (caller : Trail) (i : InvokeId) (o : HeapObj) (a : Allocation) :
    Trail :=
  q.onReceiver (.callSite i) (.object o.site) (.type a.owner) caller o.trail

/-- The heap context of an allocated object. -/
def heapTrail (q : Policy) (allocator : Trail) : Trail :=
  q.onAlloc allocator

end Policy

namespace Inclusion

/-! ## Rules -/

section Rules

variable (h : Hierarchy) (q : Policy)

/-- A call stands in the body of a method. -/
structure CallIn (m : MethodId) (i : InvokeId) (call : Invoke) : Prop where
  stmt : ∃ position, h.program.stmt? m position = some (.invoke i)
  call : h.program.invokes[i.index]? = some call

/-- A call with a receiver reaches a method on an object of an allocation. -/
structure Dispatches (call : Invoke) (o : HeapObj) (a : Allocation) (callee : MethodId) : Prop where
  dynamic : call.kind ≠ .static
  allocation : h.program.allocation? o.site = some a
  callee : h.calleeOn call a.ty = .ok (some callee)

/-- The premises and the conclusion of one use of a rule. -/
inductive Rule : List Fact → Fact → Prop where
  /-- Entries run in the empty context. -/
  | entry {m : MethodId} (listed : m ∈ h.program.entries) : Rule [] (.reachable ⟨[], m⟩)
  | new {t : Trail} {m : MethodId} {i : Nat} {lhs : VarId} {ty : Ty}
      (stmt : h.program.stmt? m i = some (.new lhs ty)) :
      Rule [.reachable ⟨t, m⟩] (.pointsTo (.var t lhs) ⟨q.heapTrail t, ⟨m, i⟩⟩)
  | copy {t : Trail} {m : MethodId} {i : Nat} {lhs rhs : VarId} {o : HeapObj}
      (stmt : h.program.stmt? m i = some (.copy lhs rhs)) :
      Rule [.reachable ⟨t, m⟩, .pointsTo (.var t rhs) o] (.pointsTo (.var t lhs) o)
  | loadStatic {t : Trail} {m : MethodId} {i : Nat} {lhs : VarId} {f : FieldId} {o : HeapObj}
      (stmt : h.program.stmt? m i = some (.loadField lhs (.global f))) :
      Rule [.reachable ⟨t, m⟩, .pointsTo (.staticField f) o] (.pointsTo (.var t lhs) o)
  | storeStatic {t : Trail} {m : MethodId} {i : Nat} {rhs : VarId} {f : FieldId} {o : HeapObj}
      (stmt : h.program.stmt? m i = some (.storeField (.global f) rhs)) :
      Rule [.reachable ⟨t, m⟩, .pointsTo (.var t rhs) o] (.pointsTo (.staticField f) o)
  | loadField {t : Trail} {m : MethodId} {i : Nat} {lhs base : VarId} {f : FieldId} {b o : HeapObj}
      (stmt : h.program.stmt? m i = some (.loadField lhs (.member base f))) :
      Rule [.reachable ⟨t, m⟩, .pointsTo (.var t base) b, .pointsTo (.instanceField b f) o]
        (.pointsTo (.var t lhs) o)
  | storeField {t : Trail} {m : MethodId} {i : Nat} {base rhs : VarId} {f : FieldId}
      {b o : HeapObj} (stmt : h.program.stmt? m i = some (.storeField (.member base f) rhs)) :
      Rule [.reachable ⟨t, m⟩, .pointsTo (.var t base) b, .pointsTo (.var t rhs) o]
        (.pointsTo (.instanceField b f) o)
  | loadArray {t : Trail} {m : MethodId} {i : Nat} {lhs base : VarId} {b o : HeapObj}
      (stmt : h.program.stmt? m i = some (.loadArray lhs base)) :
      Rule [.reachable ⟨t, m⟩, .pointsTo (.var t base) b, .pointsTo (.arrayIndex b) o]
        (.pointsTo (.var t lhs) o)
  | storeArray {t : Trail} {m : MethodId} {i : Nat} {base rhs : VarId} {b o : HeapObj}
      (stmt : h.program.stmt? m i = some (.storeArray base rhs)) :
      Rule [.reachable ⟨t, m⟩, .pointsTo (.var t base) b, .pointsTo (.var t rhs) o]
        (.pointsTo (.arrayIndex b) o)
  | callStatic {t : Trail} {m : MethodId} {i : InvokeId} {call : Invoke} {callee : MethodId}
      (site : CallIn h m i call) (kind : call.kind = .static)
      (target : h.resolveStatic call.target = .ok (some callee)) :
      Rule [.reachable ⟨t, m⟩] (.calls .static ⟨t, i⟩ ⟨q.callTrail t i, callee⟩)
  | callOn {t : Trail} {m : MethodId} {i : InvokeId} {call : Invoke} {recv : VarId} {o : HeapObj}
      {a : Allocation} {callee : MethodId} (site : CallIn h m i call)
      (receiver : call.receiver = some recv) (target : Dispatches h call o a callee) :
      Rule [.reachable ⟨t, m⟩, .pointsTo (.var t recv) o]
        (.calls call.kind ⟨t, i⟩ ⟨q.receiverTrail t i o a, callee⟩)
  /-- The receiver variable of a called method holds the object that the method is called on. -/
  | receiver {t : Trail} {m : MethodId} {i : InvokeId} {call : Invoke} {recv self : VarId}
      {o : HeapObj} {a : Allocation} {callee : MethodId} {method : Method}
      (site : CallIn h m i call) (receiver : call.receiver = some recv)
      (target : Dispatches h call o a callee)
      (declared : h.program.methods[callee.index]? = some method)
      (bound : method.receiver = some self) :
      Rule [.reachable ⟨t, m⟩, .pointsTo (.var t recv) o]
        (.pointsTo (.var (q.receiverTrail t i o a) self) o)
  | callee {kind : CallKind} {site : CallPoint} {a : Activation} :
      Rule [.calls kind site a] (.reachable a)
  | argument {kind : CallKind} {t t' : Trail} {i : InvokeId} {call : Invoke} {callee : MethodId}
      {method : Method} {arg param : VarId} {o : HeapObj}
      (described : h.program.invokes[i.index]? = some call)
      (declared : h.program.methods[callee.index]? = some method)
      (passed : (arg, param) ∈ call.args.zip method.params) :
      Rule [.calls kind ⟨t, i⟩ ⟨t', callee⟩, .pointsTo (.var t arg) o] (.pointsTo (.var t' param) o)
  | result {kind : CallKind} {t t' : Trail} {i : InvokeId} {call : Invoke} {callee : MethodId}
      {method : Method} {value target : VarId} {o : HeapObj}
      (described : h.program.invokes[i.index]? = some call)
      (declared : h.program.methods[callee.index]? = some method)
      (assigned : call.result = some target) (returned : value ∈ method.returned) :
      Rule [.calls kind ⟨t, i⟩ ⟨t', callee⟩, .pointsTo (.var t' value) o] (.pointsTo (.var t target) o)

/-- The facts that have a finite derivation: the least solution of the rules. -/
inductive Derivable : Fact → Prop where
  | step {premises : List Fact} {conclusion : Fact} (rule : Rule h q premises conclusion)
      (derived : ∀ f ∈ premises, Derivable f) : Derivable conclusion

/-- No rule adds to a set of facts. -/
def Closed (facts : Fact → Prop) : Prop :=
  ∀ premises conclusion, Rule h q premises conclusion → (∀ f ∈ premises, facts f) → facts conclusion

end Rules

variable {h : Hierarchy} {q : Policy}

/-- A call has one description. -/
theorem CallIn.unique {m m' : MethodId} {i : InvokeId} {call call' : Invoke}
    (site : CallIn h m i call) (site' : CallIn h m' i call') : call = call' :=
  Option.some.inj (site.call.symm.trans site'.call)

section Premises

variable {f g k conclusion : Fact}

theorem Derivable.one (rule : Rule h q [f] conclusion) (first : Derivable h q f) :
    Derivable h q conclusion :=
  .step rule (by simpa using first)

theorem Derivable.two (rule : Rule h q [f, g] conclusion) (first : Derivable h q f)
    (second : Derivable h q g) : Derivable h q conclusion :=
  .step rule (by simpa using ⟨first, second⟩)

theorem Derivable.three (rule : Rule h q [f, g, k] conclusion) (first : Derivable h q f)
    (second : Derivable h q g) (third : Derivable h q k) : Derivable h q conclusion :=
  .step rule (by simpa using ⟨first, second, third⟩)

end Premises

theorem derivable_closed : Closed h q (Derivable h q) :=
  fun _ _ rule derived => .step rule derived

/-- Every solution of the rules has all derivable facts. -/
theorem Closed.of_derivable {facts : Fact → Prop} (closed : Closed h q facts) {f : Fact}
    (derived : Derivable h q f) : facts f := by
  induction derived with
  | step rule _ ih => exact closed _ _ rule ih

/-! ## Calls that cannot be made -/

section BadCall

variable (h q)

/-- A call that the analysis meets cannot pass its arguments or its receiver. -/
inductive BadCall : Prop where
  | static {t : Trail} {m : MethodId} {i : InvokeId} {call : Invoke} {callee : MethodId}
      {method : Method} (reached : Derivable h q (.reachable ⟨t, m⟩)) (site : CallIn h m i call)
      (kind : call.kind = .static) (target : h.resolveStatic call.target = .ok (some callee))
      (declared : h.program.methods[callee.index]? = some method)
      (arity : call.args.length ≠ method.params.length)
  | onObject {t : Trail} {m : MethodId} {i : InvokeId} {call : Invoke} {recv : VarId} {o : HeapObj}
      {a : Allocation} {callee : MethodId} {method : Method}
      (reached : Derivable h q (.reachable ⟨t, m⟩)) (site : CallIn h m i call)
      (receiver : call.receiver = some recv) (held : Derivable h q (.pointsTo (.var t recv) o))
      (target : Dispatches h call o a callee)
      (declared : h.program.methods[callee.index]? = some method)
      (unfit : method.receiver = none ∨ call.args.length ≠ method.params.length)

/-- A call on an object that the analysis meets reaches a method of a name without a receiver
variable. -/
inductive LacksReceiver (name : String) : Prop where
  | onObject {t : Trail} {m : MethodId} {i : InvokeId} {call : Invoke} {recv : VarId} {o : HeapObj}
      {a : Allocation} {callee : MethodId} {method : Method}
      (reached : Derivable h q (.reachable ⟨t, m⟩)) (site : CallIn h m i call)
      (receiver : call.receiver = some recv) (held : Derivable h q (.pointsTo (.var t recv) o))
      (target : Dispatches h call o a callee)
      (declared : h.program.methods[callee.index]? = some method)
      (none : method.receiver = none) (named : h.program.methodName callee = .ok name)

end BadCall

theorem LacksReceiver.badCall {name : String} (lacks : LacksReceiver h q name) : BadCall h q := by
  obtain ⟨reached, site, receiver, held, target, declared, none, -⟩ := lacks
  exact .onObject reached site receiver held target declared (Or.inl none)

/-- Calls pass one argument for each parameter if all calls can be made. -/
theorem length_args_of_calls (fit : ¬BadCall h q) {kind : CallKind} {site : CallPoint}
    {a : Activation} (derived : Derivable h q (.calls kind site a)) {call : Invoke} {method : Method}
    (described : h.program.invokes[site.invoke.index]? = some call)
    (declared : h.program.methods[a.method.index]? = some method) :
    call.args.length = method.params.length := by
  cases derived with
  | step rule derived =>
    refine Classical.byContradiction fun unequal => ?_
    cases rule with
    | callStatic site kind target =>
      have same := site.call
      rw [described] at same
      obtain rfl := Option.some.inj same
      exact fit (.static (derived _ List.mem_cons_self) site kind target declared unequal)
    | callOn site receiver target =>
      have same := site.call
      rw [described] at same
      obtain rfl := Option.some.inj same
      obtain ⟨reached, held⟩ := List.forall_mem_cons.1 derived
      exact fit (.onObject reached site receiver (held _ List.mem_cons_self) target declared
        (Or.inr unequal))

end Inclusion

end PointsTo
