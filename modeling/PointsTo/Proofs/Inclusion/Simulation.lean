import PointsTo.Proofs.Inclusion.Flow

/-!
# Simulations

A map of contexts and allocations from one program and policy to another that commutes with both
policies, where the second program has all statements and calls of the first. It carries uses of
rules over, and with them everything that the first analysis finds out.
-/

namespace PointsTo

open Inclusion

/-! ## Programs with the same statements -/

/-- The second program has the entries, the statements, the calls and the methods of the first, each
statement where the map of allocations says, and calls reach the same methods. -/
structure Hierarchy.Embeds (h h' : Hierarchy) (onSite : AllocSite → AllocSite) : Prop where
  entries {m : MethodId} : m ∈ h.program.entries → m ∈ h'.program.entries
  stmts {m : MethodId} {i : Nat} {s : Stmt} : h.program.stmt? m i = some s →
    ∃ j, onSite ⟨m, i⟩ = ⟨m, j⟩ ∧ h'.program.stmt? m j = some s
  invokes {i : Nat} {call : Invoke} : h.program.invokes[i]? = some call →
    ∃ n, h'.program.invokes[i]? = some { call with position := n }
  methods {i : Nat} {method : Method} : h.program.methods[i]? = some method →
    ∃ body returned, h'.program.methods[i]? =
      some { method with body := body, returned := returned } ∧ ∀ v ∈ method.returned, v ∈ returned
  resolveStatic (r : MethodRef) : h'.resolveStatic r = h.resolveStatic r
  calleeOn (call : Invoke) (ty : Ty) : h'.calleeOn call ty = h.calleeOn call ty

namespace Hierarchy.Embeds

variable {h h' : Hierarchy} {onSite : AllocSite → AllocSite}

theorem refl (h : Hierarchy) : h.Embeds h id where
  entries := id
  stmts stands := ⟨_, rfl, stands⟩
  invokes described := ⟨_, described⟩
  methods declared := ⟨_, _, declared, fun _ => id⟩
  resolveStatic _ := rfl
  calleeOn _ _ := rfl

variable (embeds : h.Embeds h' onSite)
include embeds

theorem stmt {m : MethodId} {i : Nat} {s : Stmt} (stands : h.program.stmt? m i = some s) :
    ∃ j, h'.program.stmt? m j = some s :=
  (embeds.stmts stands).imp fun _ => And.right

theorem allocation? {site : AllocSite} {a : Allocation}
    (allocates : h.program.allocation? site = some a) :
    h'.program.allocation? (onSite site) = some a := by
  obtain ⟨method, lhs, declared, stands, owner⟩ := Program.allocation?_eq_some_iff.1 allocates
  obtain ⟨body, returned, declared', -⟩ := embeds.methods declared
  obtain ⟨j, place, stands'⟩ := embeds.stmts stands
  rw [place]
  exact Program.allocation?_eq_some_iff.2 ⟨_, lhs, declared', stands', owner⟩

theorem callIn {m : MethodId} {i : InvokeId} {call : Invoke} (site : CallIn h m i call) :
    ∃ n, CallIn h' m i { call with position := n } := by
  obtain ⟨position, stands⟩ := site.stmt
  obtain ⟨j, stands'⟩ := embeds.stmt stands
  obtain ⟨n, described⟩ := embeds.invokes site.call
  exact ⟨n, ⟨j, stands'⟩, described⟩

end Hierarchy.Embeds

namespace Inclusion

/-! ## Maps of contexts and allocations -/

/-- A map of contexts and allocations that commutes with two policies. -/
structure Simulation (h h' : Hierarchy) (F G : Policy) where
  onTrail : Trail → Trail
  onHeap : Trail → Trail
  onSite : AllocSite → AllocSite
  embeds : h.Embeds h' onSite
  nil : onTrail [] = []
  call (t : Trail) (i : InvokeId) : onTrail (F.callTrail t i) = G.callTrail (onTrail t) i
  receiver {o : HeapObj} {a : Allocation} (t : Trail) (i : InvokeId)
    (allocates : h.program.allocation? o.site = some a) :
    onTrail (F.receiverTrail t i o a) =
      G.receiverTrail (onTrail t) i ⟨onHeap o.trail, onSite o.site⟩ a
  alloc (t : Trail) : onHeap (F.heapTrail t) = G.heapTrail (onTrail t)

namespace Simulation

variable {h h' : Hierarchy} {F G : Policy} (S : Simulation h h' F G)

/-! ## Facts -/

/-- The image of an object. -/
def heapObj (o : HeapObj) : HeapObj :=
  ⟨S.onHeap o.trail, S.onSite o.site⟩

/-- The image of a method under a context. -/
def activation (a : Activation) : Activation :=
  ⟨S.onTrail a.trail, a.method⟩

/-- The image of a call site. -/
def callPoint (site : CallPoint) : CallPoint :=
  ⟨S.onTrail site.trail, site.invoke⟩

/-- The image of a place. -/
def location : Location → Location
  | .var t v => .var (S.onTrail t) v
  | .staticField f => .staticField f
  | .instanceField base f => .instanceField (S.heapObj base) f
  | .arrayIndex base => .arrayIndex (S.heapObj base)

/-- The image of a fact. -/
def fact : Fact → Fact
  | .reachable a => .reachable (S.activation a)
  | .pointsTo l o => .pointsTo (S.location l) (S.heapObj o)
  | .calls kind site a => .calls kind (S.callPoint site) (S.activation a)

/-! ## Derivations -/

theorem dispatches {call : Invoke} {o : HeapObj} {a : Allocation} {callee : MethodId} (n : Nat)
    (target : Dispatches h call o a callee) :
    Dispatches h' { call with position := n } (S.heapObj o) a callee where
  dynamic := target.dynamic
  allocation := S.embeds.allocation? target.allocation
  callee := (S.embeds.calleeOn { call with position := n } a.ty).trans target.callee

/-- The image of a use of a rule is a use of that rule. -/
theorem rule {premises : List Fact} {conclusion : Fact} (rule : Rule h F premises conclusion) :
    Rule h' G (premises.map S.fact) (S.fact conclusion) := by
  cases rule with
  -- where the policy makes a context, the map goes over to the context that the other policy makes
  | @entry m listed =>
    have image : S.fact (.reachable ⟨[], m⟩) = .reachable ⟨[], m⟩ := by
      simp only [fact, activation, S.nil]
    rw [image]
    exact .entry (S.embeds.entries listed)
  | @new t m i lhs ty stmt =>
    obtain ⟨j, place, stmt'⟩ := S.embeds.stmts stmt
    have image : S.fact (.pointsTo (.var t lhs) ⟨F.heapTrail t, ⟨m, i⟩⟩) =
        .pointsTo (.var (S.onTrail t) lhs) ⟨G.heapTrail (S.onTrail t), ⟨m, j⟩⟩ := by
      simp only [fact, location, heapObj, S.alloc, place]
    rw [image]
    exact .new stmt'
  | copy stmt =>
    obtain ⟨j, stmt'⟩ := S.embeds.stmt stmt
    exact .copy stmt'
  | loadStatic stmt =>
    obtain ⟨j, stmt'⟩ := S.embeds.stmt stmt
    exact .loadStatic stmt'
  | storeStatic stmt =>
    obtain ⟨j, stmt'⟩ := S.embeds.stmt stmt
    exact .storeStatic stmt'
  | loadField stmt =>
    obtain ⟨j, stmt'⟩ := S.embeds.stmt stmt
    exact .loadField stmt'
  | storeField stmt =>
    obtain ⟨j, stmt'⟩ := S.embeds.stmt stmt
    exact .storeField stmt'
  | loadArray stmt =>
    obtain ⟨j, stmt'⟩ := S.embeds.stmt stmt
    exact .loadArray stmt'
  | storeArray stmt =>
    obtain ⟨j, stmt'⟩ := S.embeds.stmt stmt
    exact .storeArray stmt'
  | @callStatic t m i call callee site kind target =>
    obtain ⟨n, site'⟩ := S.embeds.callIn site
    have image : S.fact (.calls .static ⟨t, i⟩ ⟨F.callTrail t i, callee⟩) =
        .calls .static ⟨S.onTrail t, i⟩ ⟨G.callTrail (S.onTrail t) i, callee⟩ := by
      simp only [fact, callPoint, activation, S.call]
    rw [image]
    exact .callStatic site' kind ((S.embeds.resolveStatic call.target).trans target)
  | @callOn t m i call recv o a callee site receiver target =>
    obtain ⟨n, site'⟩ := S.embeds.callIn site
    have image : S.fact (.calls call.kind ⟨t, i⟩ ⟨F.receiverTrail t i o a, callee⟩) =
        .calls call.kind ⟨S.onTrail t, i⟩
          ⟨G.receiverTrail (S.onTrail t) i (S.heapObj o) a, callee⟩ := by
      simp only [fact, callPoint, activation, S.receiver t i target.allocation, heapObj]
    have use := Rule.callOn (q := G) (t := S.onTrail t) site' receiver (S.dispatches n target)
    rw [image]
    exact use
  | @receiver t m i call recv self o a callee method site receiver target declared bound =>
    obtain ⟨n, site'⟩ := S.embeds.callIn site
    obtain ⟨body, returned, declared', -⟩ := S.embeds.methods declared
    have image : S.fact (.pointsTo (.var (F.receiverTrail t i o a) self) o) =
        .pointsTo (.var (G.receiverTrail (S.onTrail t) i (S.heapObj o) a) self) (S.heapObj o) := by
      simp only [fact, location, S.receiver t i target.allocation, heapObj]
    rw [image]
    exact .receiver site' receiver (S.dispatches n target) declared' bound
  | callee => exact .callee
  | argument described declared passed =>
    obtain ⟨n, described'⟩ := S.embeds.invokes described
    obtain ⟨body, returned, declared', -⟩ := S.embeds.methods declared
    exact .argument described' declared' passed
  | result described declared assigned returned =>
    obtain ⟨n, described'⟩ := S.embeds.invokes described
    obtain ⟨body, returned', declared', more⟩ := S.embeds.methods declared
    exact .result described' declared' assigned (more _ returned)

/-- The image of a derivable fact is derivable. -/
theorem derivable {f : Fact} (derived : Derivable h F f) : Derivable h' G (S.fact f) := by
  induction derived with
  | step rule derived ih =>
    refine .step (S.rule rule) fun f mem => ?_
    obtain ⟨g, listed, rfl⟩ := List.mem_map.1 mem
    exact ih g listed

include S in
/-- The second analysis meets every call that the first one meets. -/
theorem badCall (bad : BadCall h F) : BadCall h' G := by
  cases bad with
  | @static t m i call callee method reached site kind target declared arity =>
    obtain ⟨n, site'⟩ := S.embeds.callIn site
    obtain ⟨body, returned, declared', -⟩ := S.embeds.methods declared
    exact .static (S.derivable reached) site' kind
      ((S.embeds.resolveStatic call.target).trans target) declared' arity
  | @onObject t m i call recv o a callee method reached site receiver held target declared unfit =>
    obtain ⟨n, site'⟩ := S.embeds.callIn site
    obtain ⟨body, returned, declared', -⟩ := S.embeds.methods declared
    exact .onObject (S.derivable reached) site' receiver (S.derivable held)
      (S.dispatches n target) declared' unfit

/-! ## Names -/

/-- The images of connected places are connected. -/
theorem flow {l l' : Location} (connects : Flow h (Derivable h F) l l') :
    Flow h' (Derivable h' G) (S.location l) (S.location l') := by
  cases connects with
  | copy reached stmt =>
    obtain ⟨j, stmt'⟩ := S.embeds.stmt stmt
    exact .copy (S.derivable reached) stmt'
  | loadStatic reached stmt =>
    obtain ⟨j, stmt'⟩ := S.embeds.stmt stmt
    exact .loadStatic (S.derivable reached) stmt'
  | storeStatic reached stmt =>
    obtain ⟨j, stmt'⟩ := S.embeds.stmt stmt
    exact .storeStatic (S.derivable reached) stmt'
  | loadField reached held stmt =>
    obtain ⟨j, stmt'⟩ := S.embeds.stmt stmt
    exact .loadField (S.derivable reached) (S.derivable held) stmt'
  | storeField reached held stmt =>
    obtain ⟨j, stmt'⟩ := S.embeds.stmt stmt
    exact .storeField (S.derivable reached) (S.derivable held) stmt'
  | loadArray reached held stmt =>
    obtain ⟨j, stmt'⟩ := S.embeds.stmt stmt
    exact .loadArray (S.derivable reached) (S.derivable held) stmt'
  | storeArray reached held stmt =>
    obtain ⟨j, stmt'⟩ := S.embeds.stmt stmt
    exact .storeArray (S.derivable reached) (S.derivable held) stmt'
  | argument called described declared passed =>
    obtain ⟨n, described'⟩ := S.embeds.invokes described
    obtain ⟨body, returned, declared', -⟩ := S.embeds.methods declared
    exact .argument (S.derivable called) described' declared' passed
  | result called described declared assigned returned =>
    obtain ⟨n, described'⟩ := S.embeds.invokes described
    obtain ⟨body, returned', declared', more⟩ := S.embeds.methods declared
    exact .result (S.derivable called) described' declared' assigned (more _ returned)

theorem made {o : HeapObj} (made : Made h F o) : Made h' G (S.heapObj o) := by
  obtain ⟨l, held⟩ := made
  exact ⟨S.location l, S.derivable held⟩

theorem met {l : Location} (met : Met h F l) : Met h' G (S.location l) := by
  cases met with
  | holds held => exact .holds (S.derivable held)
  | source connects => exact .source (S.flow connects)
  | target connects => exact .target (S.flow connects)
  | result called described assigned =>
    obtain ⟨n, described'⟩ := S.embeds.invokes described
    exact .result (S.derivable called) described' assigned

/-- If methods and objects have the same map of contexts, images of contexts in use are in use. -/
theorem used (same : S.onHeap = S.onTrail) {t : Trail} (used : Used h F t) :
    Used h' G (S.onTrail t) := by
  cases used with
  | empty =>
    rw [S.nil]
    exact .empty
  | runs reached => exact .runs (S.derivable reached)
  | @allocates t m i lhs ty reached stmt =>
    obtain ⟨j, stmt'⟩ := S.embeds.stmt stmt
    rw [← same, S.alloc]
    exact .allocates (S.derivable reached) stmt'

/-! ## Faithful maps -/

/-- The map is the same for all contexts, and it keeps contexts and allocations apart. -/
structure Faithful : Prop where
  onHeap : S.onHeap = S.onTrail
  trails : Function.Injective S.onTrail
  sites : Function.Injective S.onSite

variable {S}

theorem Faithful.heapObj_injective (faithful : S.Faithful) : Function.Injective S.heapObj := by
  intro o o' same
  obtain ⟨trails, sites⟩ := HeapObj.mk.inj same
  rw [faithful.onHeap] at trails
  show HeapObj.mk o.trail o.site = HeapObj.mk o'.trail o'.site
  rw [faithful.trails trails, faithful.sites sites]

theorem Faithful.location_injective (faithful : S.Faithful) : Function.Injective S.location := by
  intro l l' same
  cases l with
  | var t v =>
    cases l' with
    | var t' v' =>
      obtain ⟨trails, rfl⟩ := Location.var.inj same
      rw [faithful.trails trails]
    | _ => cases same
  | staticField f =>
    cases l' with
    | staticField f' => exact same
    | _ => cases same
  | instanceField base f =>
    cases l' with
    | instanceField base' f' =>
      obtain ⟨bases, rfl⟩ := Location.instanceField.inj same
      rw [faithful.heapObj_injective bases]
    | _ => cases same
  | arrayIndex base =>
    cases l' with
    | arrayIndex base' => rw [faithful.heapObj_injective (Location.arrayIndex.inj same)]
    | _ => cases same

end Simulation

end Inclusion

end PointsTo
