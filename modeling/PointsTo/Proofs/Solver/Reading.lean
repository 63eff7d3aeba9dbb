import PointsTo.Proofs.Except
import PointsTo.Proofs.Heap
import PointsTo.Proofs.Inclusion.Rules
import PointsTo.Proofs.Solver.Growth

/-!
# What identifiers stand for

A state names contexts, objects and locations by positions in its tables. Reading an identifier gives
what it stands for, in terms that do not depend on the state: sequences of call sites, allocation
statements and classes. Readings stay the same while the state grows, and two identifiers of one
kind with the same reading are the same.
-/

namespace PointsTo

open Inclusion

variable {P : Problem}

namespace SolverState

/-! ## Readings -/

section Readings

variable (s : SolverState P)

/-- The abstract objects. -/
def objects : Array Obj :=
  P.heapModel.objects s.heap

/-- What an element of a context stands for. -/
def mark? : ContextElement → Option Mark
  | .callSite i => some (.callSite i)
  | .object o => s.objects[o.index]?.map fun obj => .object obj.site
  | .type c => some (.type c)

/-- The sequence that a context stands for. -/
def trail? (c : ContextId) : Option Trail :=
  (s.contexts.table.get? c.index).bind fun ctx => ctx.mapM s.mark?

/-- The allocation and the heap context of an object. -/
def heapObj? (x : CsObjId) : Option HeapObj := do
  let o ← s.elements.objects.get? x.index
  let obj ← s.objects[o.obj.index]?
  return ⟨← s.trail? o.context, obj.site⟩

/-- A method with the sequence of its context. -/
def activation? (m : CsMethodId) : Option Activation := do
  let x ← s.elements.methods.get? m.index
  return ⟨← s.trail? x.context, x.method⟩

/-- A call site with the sequence of its context. -/
def callPoint? (i : CsCallSiteId) : Option CallPoint := do
  let x ← s.elements.callSites.get? i.index
  return ⟨← s.trail? x.context, x.invoke⟩

/-- The place that a location stands for. -/
def location? : PointerKey → Option Location
  | .var c v => (s.trail? c).map fun t => .var t v
  | .staticField f => some (.staticField f)
  | .instanceField x f => (s.heapObj? x).map fun o => .instanceField o f
  | .arrayIndex x => (s.heapObj? x).map fun o => .arrayIndex o

/-- The place that the identifier of a location stands for. -/
def locationAt? (p : PointerId) : Option Location :=
  (s.elements.pointers.get? p.index).bind s.location?

/-! ## Facts -/

/-- What a state says, read through its tables. -/
def Holds : Fact → Prop
  | .reachable a => ∃ m ∈ s.callGraph.reachable.toList, s.activation? m = some a
  | .pointsTo l o => ∃ p x, s.locationAt? p = some l ∧ s.heapObj? x = some o ∧ s.Contains p x
  | .calls kind site a => ∃ e ∈ s.callGraph.edges.toList, e.kind = kind ∧
      s.callPoint? e.site = some site ∧ s.activation? e.callee = some a

/-- An object has reached a place or is on its way to it. -/
def Sends (l : Location) (o : HeapObj) : Prop :=
  ∃ p x, s.locationAt? p = some l ∧ s.heapObj? x = some o ∧ s.Sent p x

/-- A flow edge connects two places. -/
def FlowsTo (l l' : Location) : Prop :=
  ∃ e ∈ s.flow.edges.toList, s.locationAt? e.source = some l ∧ s.locationAt? e.target = some l'

end Readings

variable {s s' s'' : SolverState P}

theorem mapM_eq_some_iff {α β : Type} {f : α → Option β} {l : List α} {bs : List β} :
    l.mapM f = some bs ↔ l.map f = bs.map some := by
  induction l generalizing bs with
  | nil =>
    rw [List.mapM_nil, List.map_nil, eq_comm (a := []), List.map_eq_nil_iff, eq_comm (a := bs)]
    exact Option.some_inj
  | cons a l ih =>
    rw [List.mapM_cons, Option.bind_eq_bind, Option.bind_eq_some_iff]
    constructor
    · rintro ⟨b, first, rest⟩
      obtain ⟨bs', tail, whole⟩ := Option.bind_eq_some_iff.1 rest
      rw [← Option.some.inj whole, List.map_cons, List.map_cons, first, ih.1 tail]
    · intro same
      cases bs with
      | nil => simp at same
      | cons b bs =>
        rw [List.map_cons, List.map_cons, List.cons.injEq] at same
        exact ⟨b, same.1, by rw [ih.2 same.2]; rfl⟩

theorem trail?_eq_some_iff {c : ContextId} {t : Trail} :
    s.trail? c = some t ↔
      ∃ ctx, s.contexts.table.get? c.index = some ctx ∧ ctx.map s.mark? = t.map some := by
  simp only [trail?, Option.bind_eq_some_iff, mapM_eq_some_iff]

theorem heapObj?_eq_some_iff {x : CsObjId} {o : HeapObj} :
    s.heapObj? x = some o ↔ ∃ cs obj, s.elements.objects.get? x.index = some cs ∧
      s.objects[cs.obj.index]? = some obj ∧ s.trail? cs.context = some o.trail ∧
      obj.site = o.site := by
  obtain ⟨t, site⟩ := o
  simp only [heapObj?, Option.bind_eq_bind, Option.bind_eq_some_iff, Option.pure_def,
    Option.some.injEq, HeapObj.mk.injEq]
  constructor
  · rintro ⟨cs, known, obj, found, t', read, rfl, rfl⟩
    exact ⟨cs, obj, known, found, read, rfl⟩
  · rintro ⟨cs, obj, known, found, read, rfl⟩
    exact ⟨cs, known, obj, found, t, read, rfl, rfl⟩

theorem activation?_eq_some_iff {m : CsMethodId} {a : Activation} :
    s.activation? m = some a ↔ ∃ c, s.elements.methods.get? m.index = some ⟨c, a.method⟩ ∧
      s.trail? c = some a.trail := by
  obtain ⟨t, method⟩ := a
  simp only [activation?, Option.bind_eq_bind, Option.bind_eq_some_iff, Option.pure_def,
    Option.some.injEq, Activation.mk.injEq]
  constructor
  · rintro ⟨⟨c, m'⟩, known, t', read, rfl, rfl⟩
    exact ⟨c, known, read⟩
  · rintro ⟨c, known, read⟩
    exact ⟨⟨c, method⟩, known, t, read, rfl, rfl⟩

theorem callPoint?_eq_some_iff {i : CsCallSiteId} {site : CallPoint} :
    s.callPoint? i = some site ↔
      ∃ c, s.elements.callSites.get? i.index = some ⟨c, site.invoke⟩ ∧
        s.trail? c = some site.trail := by
  obtain ⟨t, invoke⟩ := site
  simp only [callPoint?, Option.bind_eq_bind, Option.bind_eq_some_iff, Option.pure_def,
    Option.some.injEq, CallPoint.mk.injEq]
  constructor
  · rintro ⟨⟨c, i'⟩, known, t', read, rfl, rfl⟩
    exact ⟨c, known, read⟩
  · rintro ⟨c, known, read⟩
    exact ⟨⟨c, invoke⟩, known, t, read, rfl, rfl⟩

theorem locationAt?_eq_some_iff {p : PointerId} {l : Location} :
    s.locationAt? p = some l ↔
      ∃ k, s.elements.pointers.get? p.index = some k ∧ s.location? k = some l :=
  Option.bind_eq_some_iff

/-- The set of a location that stands for a place exists. -/
theorem exists_pointsToSet {p : PointerId} {l : Location} (place : s.locationAt? p = some l) :
    ∃ set, s.elements.pointsToSet p = .ok set := by
  obtain ⟨k, known, -⟩ := locationAt?_eq_some_iff.1 place
  refine exists_fetch_eq_ok_iff.2 ?_
  rw [s.elements.pointsTo_size]
  exact Table.lt_size_of_get? known

/-! ## Kinds of locations -/

section Kinds

variable {k : PointerKey} {t : Trail} {v : VarId} {f : FieldId} {o : HeapObj}

theorem location?_eq_some_var_iff :
    s.location? k = some (.var t v) ↔ ∃ c, k = .var c v ∧ s.trail? c = some t := by
  constructor
  · intro place
    cases k with
    | var c v' =>
      obtain ⟨t', trail, same⟩ := Option.map_eq_some_iff.1 place
      obtain ⟨rfl, rfl⟩ := Location.var.inj same
      exact ⟨c, rfl, trail⟩
    | _ => simp [location?] at place
  · rintro ⟨c, rfl, trail⟩
    exact Option.map_eq_some_iff.2 ⟨t, trail, rfl⟩

theorem location?_eq_some_staticField_iff :
    s.location? k = some (.staticField f) ↔ k = .staticField f := by
  constructor
  · intro place
    cases k with
    | staticField f' => rw [Location.staticField.inj (Option.some.inj place)]
    | _ => simp [location?] at place
  · rintro rfl
    rfl

theorem location?_eq_some_instanceField_iff :
    s.location? k = some (.instanceField o f) ↔
      ∃ x, k = .instanceField x f ∧ s.heapObj? x = some o := by
  constructor
  · intro place
    cases k with
    | instanceField x f' =>
      obtain ⟨o', base, same⟩ := Option.map_eq_some_iff.1 place
      obtain ⟨rfl, rfl⟩ := Location.instanceField.inj same
      exact ⟨x, rfl, base⟩
    | _ => simp [location?] at place
  · rintro ⟨x, rfl, base⟩
    exact Option.map_eq_some_iff.2 ⟨o, base, rfl⟩

theorem location?_eq_some_arrayIndex_iff :
    s.location? k = some (.arrayIndex o) ↔ ∃ x, k = .arrayIndex x ∧ s.heapObj? x = some o := by
  constructor
  · intro place
    cases k with
    | arrayIndex x =>
      obtain ⟨o', base, same⟩ := Option.map_eq_some_iff.1 place
      obtain rfl := Location.arrayIndex.inj same
      exact ⟨x, rfl, base⟩
    | _ => simp [location?] at place
  · rintro ⟨x, rfl, base⟩
    exact Option.map_eq_some_iff.2 ⟨o, base, rfl⟩

end Kinds

/-! ## Growth -/

/-- A state has grown, with its contexts and objects. -/
structure Grows (s s' : SolverState P) : Prop extends s.Kept s' where
  contexts : s.contexts.table.toList <+: s'.contexts.table.toList
  heap : s.objects.toList <+: s'.objects.toList

theorem Grows.refl (s : SolverState P) : s.Grows s :=
  ⟨.refl s, List.prefix_rfl, List.prefix_rfl⟩

theorem Grows.trans (first : s.Grows s') (second : s'.Grows s'') : s.Grows s'' :=
  ⟨first.toKept.trans second.toKept, first.contexts.trans second.contexts,
    first.heap.trans second.heap⟩

section Grows

variable (grow : s.Grows s')
include grow

theorem Grows.mark? {e : ContextElement} {m : Mark} (read : s.mark? e = some m) :
    s'.mark? e = some m := by
  cases e with
  | callSite i => exact read
  | type c => exact read
  | object o =>
    obtain ⟨obj, found, rfl⟩ := Option.map_eq_some_iff.1 read
    exact Option.map_eq_some_iff.2 ⟨obj, getElem?_of_prefix grow.heap found, rfl⟩

theorem Grows.marks {ctx : Context} {t : Trail} (read : ctx.map s.mark? = t.map some) :
    ctx.map s'.mark? = t.map some := by
  induction ctx generalizing t with
  | nil => exact read
  | cons e ctx ih =>
    cases t with
    | nil => simp at read
    | cons m t =>
      rw [List.map_cons, List.map_cons, List.cons.injEq] at read ⊢
      exact ⟨grow.mark? read.1, ih read.2⟩

theorem Grows.trail? {c : ContextId} {t : Trail} (read : s.trail? c = some t) :
    s'.trail? c = some t := by
  obtain ⟨ctx, known, marks⟩ := trail?_eq_some_iff.1 read
  exact trail?_eq_some_iff.2
    ⟨ctx, Table.get?_of_prefix grow.contexts known, grow.marks marks⟩

theorem Grows.heapObj? {x : CsObjId} {o : HeapObj} (read : s.heapObj? x = some o) :
    s'.heapObj? x = some o := by
  obtain ⟨cs, obj, known, found, trail, site⟩ := heapObj?_eq_some_iff.1 read
  exact heapObj?_eq_some_iff.2 ⟨cs, obj, Table.get?_of_prefix grow.csObjects known,
    getElem?_of_prefix grow.heap found, grow.trail? trail, site⟩

theorem Grows.activation? {m : CsMethodId} {a : Activation} (read : s.activation? m = some a) :
    s'.activation? m = some a := by
  obtain ⟨c, known, trail⟩ := activation?_eq_some_iff.1 read
  exact activation?_eq_some_iff.2
    ⟨c, Table.get?_of_prefix grow.methods known, grow.trail? trail⟩

theorem Grows.callPoint? {i : CsCallSiteId} {site : CallPoint} (read : s.callPoint? i = some site) :
    s'.callPoint? i = some site := by
  obtain ⟨c, known, trail⟩ := callPoint?_eq_some_iff.1 read
  exact callPoint?_eq_some_iff.2
    ⟨c, Table.get?_of_prefix grow.callSites known, grow.trail? trail⟩

theorem Grows.location? {k : PointerKey} {l : Location} (read : s.location? k = some l) :
    s'.location? k = some l := by
  cases k with
  | var c v =>
    obtain ⟨t, trail, rfl⟩ := Option.map_eq_some_iff.1 read
    exact Option.map_eq_some_iff.2 ⟨t, grow.trail? trail, rfl⟩
  | staticField f => exact read
  | instanceField x f =>
    obtain ⟨o, base, rfl⟩ := Option.map_eq_some_iff.1 read
    exact Option.map_eq_some_iff.2 ⟨o, grow.heapObj? base, rfl⟩
  | arrayIndex x =>
    obtain ⟨o, base, rfl⟩ := Option.map_eq_some_iff.1 read
    exact Option.map_eq_some_iff.2 ⟨o, grow.heapObj? base, rfl⟩

theorem Grows.locationAt? {p : PointerId} {l : Location} (read : s.locationAt? p = some l) :
    s'.locationAt? p = some l := by
  obtain ⟨k, known, place⟩ := locationAt?_eq_some_iff.1 read
  exact locationAt?_eq_some_iff.2
    ⟨k, Table.get?_of_prefix grow.pointers known, grow.location? place⟩

/-- What a state says it says for ever. -/
theorem Grows.holds {f : Fact} (holds : s.Holds f) : s'.Holds f := by
  cases f with
  | reachable a =>
    obtain ⟨m, listed, read⟩ := holds
    exact ⟨m, grow.reachable.subset listed, grow.activation? read⟩
  | pointsTo l o =>
    obtain ⟨p, x, place, object, mem⟩ := holds
    exact ⟨p, x, grow.locationAt? place, grow.heapObj? object, grow.contains mem⟩
  | calls kind site a =>
    obtain ⟨e, listed, same, read, callee⟩ := holds
    exact ⟨e, grow.callEdges.subset listed, same, grow.callPoint? read, grow.activation? callee⟩

theorem Grows.sends {l : Location} {o : HeapObj} (sends : s.Sends l o) : s'.Sends l o := by
  obtain ⟨p, x, place, object, sent⟩ := sends
  exact ⟨p, x, grow.locationAt? place, grow.heapObj? object, grow.sent sent⟩

theorem Grows.flowsTo {l l' : Location} (flows : s.FlowsTo l l') : s'.FlowsTo l l' := by
  obtain ⟨e, listed, source, target⟩ := flows
  exact ⟨e, grow.flow.subset listed, grow.locationAt? source, grow.locationAt? target⟩

end Grows

/-! ## One identifier for each reading -/

/-- No two objects come from one allocation. -/
def DistinctSites (s : SolverState P) : Prop :=
  ∀ (i j : Nat) (obj obj' : Obj), s.objects[i]? = some obj → s.objects[j]? = some obj' →
    obj.site = obj'.site → i = j

section Distinct

variable (distinct : s.DistinctSites)
include distinct

theorem mark?_injective {e e' : ContextElement} {m : Mark} (read : s.mark? e = some m)
    (read' : s.mark? e' = some m) : e = e' := by
  cases e with
  | callSite i =>
    cases e' with
    | callSite j =>
      obtain rfl := Option.some.inj read
      rw [Mark.callSite.inj (Option.some.inj read')]
    | object o => simp [mark?, ← Option.some.inj read] at read'
    | type c => simp [mark?, ← Option.some.inj read] at read'
  | type c =>
    cases e' with
    | callSite j => simp [mark?, ← Option.some.inj read] at read'
    | object o => simp [mark?, ← Option.some.inj read] at read'
    | type c' =>
      obtain rfl := Option.some.inj read
      rw [Mark.type.inj (Option.some.inj read')]
  | object o =>
    obtain ⟨obj, found, rfl⟩ := Option.map_eq_some_iff.1 read
    cases e' with
    | callSite j => simp [mark?] at read'
    | type c => simp [mark?] at read'
    | object o' =>
      obtain ⟨obj', found', same⟩ := Option.map_eq_some_iff.1 read'
      have site : obj'.site = obj.site := Mark.object.inj same
      rw [Id.ext_index (distinct _ _ _ _ found found' site.symm)]

theorem marks_injective {ctx ctx' : Context} {t : Trail} (read : ctx.map s.mark? = t.map some)
    (read' : ctx'.map s.mark? = t.map some) : ctx = ctx' := by
  induction ctx generalizing ctx' t with
  | nil =>
    cases t with
    | nil => exact (List.map_eq_nil_iff.1 read').symm
    | cons m t => simp at read
  | cons e ctx ih =>
    cases t with
    | nil => simp at read
    | cons m t =>
      cases ctx' with
      | nil => simp at read'
      | cons e' ctx' =>
        rw [List.map_cons, List.map_cons, List.cons.injEq] at read read'
        rw [mark?_injective distinct read.1 read'.1, ih read.2 read'.2]

theorem trail?_injective {c c' : ContextId} {t : Trail} (read : s.trail? c = some t)
    (read' : s.trail? c' = some t) : c = c' := by
  obtain ⟨ctx, known, marks⟩ := trail?_eq_some_iff.1 read
  obtain ⟨ctx', known', marks'⟩ := trail?_eq_some_iff.1 read'
  rw [← marks_injective distinct marks marks'] at known'
  exact Id.ext_index (Table.get?_injective known known')

theorem heapObj?_injective {x x' : CsObjId} {o : HeapObj} (read : s.heapObj? x = some o)
    (read' : s.heapObj? x' = some o) : x = x' := by
  obtain ⟨⟨c, i⟩, obj, known, found, trail, site⟩ := heapObj?_eq_some_iff.1 read
  obtain ⟨⟨c', i'⟩, obj', known', found', trail', site'⟩ := heapObj?_eq_some_iff.1 read'
  have context : c = c' := trail?_injective distinct trail trail'
  have object : i = i' := Id.ext_index (distinct _ _ _ _ found found' (site.trans site'.symm))
  rw [← context, ← object] at known'
  exact Id.ext_index (Table.get?_injective known known')

theorem location?_injective {k k' : PointerKey} {l : Location} (read : s.location? k = some l)
    (read' : s.location? k' = some l) : k = k' := by
  cases l with
  | var t v =>
    obtain ⟨c, rfl, trail⟩ := location?_eq_some_var_iff.1 read
    obtain ⟨c', rfl, trail'⟩ := location?_eq_some_var_iff.1 read'
    rw [trail?_injective distinct trail trail']
  | staticField f =>
    rw [location?_eq_some_staticField_iff.1 read, location?_eq_some_staticField_iff.1 read']
  | instanceField o f =>
    obtain ⟨x, rfl, base⟩ := location?_eq_some_instanceField_iff.1 read
    obtain ⟨x', rfl, base'⟩ := location?_eq_some_instanceField_iff.1 read'
    rw [heapObj?_injective distinct base base']
  | arrayIndex o =>
    obtain ⟨x, rfl, base⟩ := location?_eq_some_arrayIndex_iff.1 read
    obtain ⟨x', rfl, base'⟩ := location?_eq_some_arrayIndex_iff.1 read'
    rw [heapObj?_injective distinct base base']

theorem locationAt?_injective {p p' : PointerId} {l : Location} (read : s.locationAt? p = some l)
    (read' : s.locationAt? p' = some l) : p = p' := by
  obtain ⟨k, known, place⟩ := locationAt?_eq_some_iff.1 read
  obtain ⟨k', known', place'⟩ := locationAt?_eq_some_iff.1 read'
  rw [← location?_injective distinct place place'] at known'
  exact Id.ext_index (Table.get?_injective known known')

end Distinct

/-! ## Facts at the end of a run -/

/-- Once nothing is pending, what is sent has arrived. -/
theorem holds_of_sends (empty : s.worklist.toList = []) {l : Location} {o : HeapObj}
    (sends : s.Sends l o) : s.Holds (.pointsTo l o) := by
  obtain ⟨p, x, place, object, arrived | ⟨e, pending, -⟩⟩ := sends
  · exact ⟨p, x, place, object, arrived⟩
  · simp [empty] at pending

end SolverState

end PointsTo
