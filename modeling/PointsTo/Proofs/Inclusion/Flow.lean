import PointsTo.Proofs.Inclusion.Rules

/-!
# Connections of places

What an analysis makes besides facts: edges between places, and names for places, objects and
contexts. The least solution of the inclusion rules says all of it, so it does not depend on an order
of work either.
-/

namespace PointsTo

namespace Inclusion

/-! ## Connections -/

section Flow

variable (h : Hierarchy) (facts : Fact → Prop)

/-- Objects pass from the first place to the second, because some facts say so of a statement or a
call. -/
inductive Flow : Location → Location → Prop where
  | copy {t : Trail} {m : MethodId} {i : Nat} {lhs rhs : VarId}
      (reached : facts (.reachable ⟨t, m⟩))
      (stmt : h.program.stmt? m i = some (.copy lhs rhs)) : Flow (.var t rhs) (.var t lhs)
  | loadStatic {t : Trail} {m : MethodId} {i : Nat} {lhs : VarId} {f : FieldId}
      (reached : facts (.reachable ⟨t, m⟩))
      (stmt : h.program.stmt? m i = some (.loadField lhs (.global f))) :
      Flow (.staticField f) (.var t lhs)
  | storeStatic {t : Trail} {m : MethodId} {i : Nat} {rhs : VarId} {f : FieldId}
      (reached : facts (.reachable ⟨t, m⟩))
      (stmt : h.program.stmt? m i = some (.storeField (.global f) rhs)) :
      Flow (.var t rhs) (.staticField f)
  | loadField {t : Trail} {m : MethodId} {i : Nat} {lhs base : VarId} {f : FieldId} {b : HeapObj}
      (reached : facts (.reachable ⟨t, m⟩))
      (held : facts (.pointsTo (.var t base) b))
      (stmt : h.program.stmt? m i = some (.loadField lhs (.member base f))) :
      Flow (.instanceField b f) (.var t lhs)
  | storeField {t : Trail} {m : MethodId} {i : Nat} {base rhs : VarId} {f : FieldId} {b : HeapObj}
      (reached : facts (.reachable ⟨t, m⟩))
      (held : facts (.pointsTo (.var t base) b))
      (stmt : h.program.stmt? m i = some (.storeField (.member base f) rhs)) :
      Flow (.var t rhs) (.instanceField b f)
  | loadArray {t : Trail} {m : MethodId} {i : Nat} {lhs base : VarId} {b : HeapObj}
      (reached : facts (.reachable ⟨t, m⟩))
      (held : facts (.pointsTo (.var t base) b))
      (stmt : h.program.stmt? m i = some (.loadArray lhs base)) :
      Flow (.arrayIndex b) (.var t lhs)
  | storeArray {t : Trail} {m : MethodId} {i : Nat} {base rhs : VarId} {b : HeapObj}
      (reached : facts (.reachable ⟨t, m⟩))
      (held : facts (.pointsTo (.var t base) b))
      (stmt : h.program.stmt? m i = some (.storeArray base rhs)) :
      Flow (.var t rhs) (.arrayIndex b)
  | argument {kind : CallKind} {t t' : Trail} {i : InvokeId} {call : Invoke} {callee : MethodId}
      {method : Method} {arg param : VarId}
      (called : facts (.calls kind ⟨t, i⟩ ⟨t', callee⟩))
      (described : h.program.invokes[i.index]? = some call)
      (declared : h.program.methods[callee.index]? = some method)
      (passed : (arg, param) ∈ call.args.zip method.params) : Flow (.var t arg) (.var t' param)
  | result {kind : CallKind} {t t' : Trail} {i : InvokeId} {call : Invoke} {callee : MethodId}
      {method : Method} {value target : VarId}
      (called : facts (.calls kind ⟨t, i⟩ ⟨t', callee⟩))
      (described : h.program.invokes[i.index]? = some call)
      (declared : h.program.methods[callee.index]? = some method)
      (assigned : call.result = some target) (returned : value ∈ method.returned) :
      Flow (.var t' value) (.var t target)

end Flow

/-- More facts connect more places. -/
theorem Flow.mono {h : Hierarchy} {facts facts' : Fact → Prop} (more : ∀ f, facts f → facts' f)
    {l l' : Location} (connects : Flow h facts l l') : Flow h facts' l l' := by
  cases connects with
  | copy reached stmt => exact .copy (more _ reached) stmt
  | loadStatic reached stmt => exact .loadStatic (more _ reached) stmt
  | storeStatic reached stmt => exact .storeStatic (more _ reached) stmt
  | loadField reached held stmt => exact .loadField (more _ reached) (more _ held) stmt
  | storeField reached held stmt => exact .storeField (more _ reached) (more _ held) stmt
  | loadArray reached held stmt => exact .loadArray (more _ reached) (more _ held) stmt
  | storeArray reached held stmt => exact .storeArray (more _ reached) (more _ held) stmt
  | argument called described declared passed =>
    exact .argument (more _ called) described declared passed
  | result called described declared assigned returned =>
    exact .result (more _ called) described declared assigned returned

/-! ## Names of the least solution -/

section Least

variable (h : Hierarchy) (q : Policy)

/-- A place that an analysis names. -/
inductive Met : Location → Prop where
  | holds {l : Location} {o : HeapObj} (held : Derivable h q (.pointsTo l o)) : Met l
  | source {l l' : Location} (connects : Flow h (Derivable h q) l l') : Met l
  | target {l l' : Location} (connects : Flow h (Derivable h q) l l') : Met l'
  /-- The result of a call is named even if the called method returns nothing. -/
  | result {kind : CallKind} {t : Trail} {i : InvokeId} {a : Activation} {call : Invoke}
      {target : VarId} (called : Derivable h q (.calls kind ⟨t, i⟩ a))
      (described : h.program.invokes[i.index]? = some call)
      (assigned : call.result = some target) : Met (.var t target)

/-- An object that an analysis names: some place holds it. -/
def Made (o : HeapObj) : Prop :=
  ∃ l, Derivable h q (.pointsTo l o)

/-- A context that an analysis names. -/
inductive Used : Trail → Prop where
  | empty : Used []
  | runs {t : Trail} {m : MethodId} (reached : Derivable h q (.reachable ⟨t, m⟩)) : Used t
  | allocates {t : Trail} {m : MethodId} {i : Nat} {lhs : VarId} {ty : Ty}
      (reached : Derivable h q (.reachable ⟨t, m⟩))
      (stmt : h.program.stmt? m i = some (.new lhs ty)) : Used (q.heapTrail t)

end Least

variable {h : Hierarchy} {q : Policy}

/-- Whatever the first of two connected places holds, the second holds. -/
theorem Flow.passes {l l' : Location} (connects : Flow h (Derivable h q) l l') {o : HeapObj}
    (held : Derivable h q (.pointsTo l o)) : Derivable h q (.pointsTo l' o) := by
  cases connects with
  | copy reached stmt => exact .two (.copy stmt) reached held
  | loadStatic reached stmt => exact .two (.loadStatic stmt) reached held
  | storeStatic reached stmt => exact .two (.storeStatic stmt) reached held
  | loadField reached base stmt => exact .three (.loadField stmt) reached base held
  | storeField reached base stmt => exact .three (.storeField stmt) reached base held
  | loadArray reached base stmt => exact .three (.loadArray stmt) reached base held
  | storeArray reached base stmt => exact .three (.storeArray stmt) reached base held
  | argument called described declared passed =>
    exact .two (.argument described declared passed) called held
  | result called described declared assigned returned =>
    exact .two (.result described declared assigned returned) called held

/-- A call stands in a method that can run. -/
theorem exists_callIn_of_calls {kind : CallKind} {t : Trail} {i : InvokeId} {a : Activation}
    (called : Derivable h q (.calls kind ⟨t, i⟩ a)) :
    ∃ m call, CallIn h m i call ∧ Derivable h q (.reachable ⟨t, m⟩) := by
  cases called with
  | step rule derived =>
    cases rule with
    | callStatic site => exact ⟨_, _, site, derived _ List.mem_cons_self⟩
    | callOn site => exact ⟨_, _, site, derived _ List.mem_cons_self⟩

end Inclusion

end PointsTo
