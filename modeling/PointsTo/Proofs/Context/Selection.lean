import PointsTo.Proofs.Context.Policy
import PointsTo.Proofs.Except

/-!
# Answers of selectors

A selector can be asked about a context that the table does not have, and then it may refuse. If it
answers, the table has grown, and the context that it picks is cut from the one it was asked about as
the policy says: it reads so in every later table in which the other one can be read.
-/

namespace PointsTo

/-! ## Contexts cut from contexts -/

namespace ContextTable

variable {t t' : ContextTable} {f : Context → Context} {source c : ContextId}

/-- A context is a function of another one, in a table and in whatever the table grows to. -/
def Cuts (t : ContextTable) (f : Context → Context) (source c : ContextId) : Prop :=
  ∀ u : ContextTable, t.table.toList <+: u.table.toList → ∀ ctx,
    u.table.get? source.index = some ctx → u.table.get? c.index = some (f ctx)

theorem Cuts.mono (cuts : t.Cuts f source c) (grow : t.table.toList <+: t'.table.toList) :
    t'.Cuts f source c :=
  fun u grow' => cuts u (grow.trans grow')

/-- What a selection that answers has done. -/
structure Picked (t : ContextTable) (f : Context → Context) (source c : ContextId)
    (t' : ContextTable) : Prop where
  grows : t.table.toList <+: t'.table.toList
  cuts : t'.Cuts f source c
  added : ∀ x ∈ t'.table.toList, x ∈ t.table.toList ∨ ∃ ctx ∈ t.table.toList, x = f ctx

theorem picked_self (t : ContextTable) (c : ContextId) : t.Picked (fun ctx => ctx) c c t :=
  ⟨List.prefix_rfl, fun _ _ _ => id, fun _ => Or.inl⟩

theorem picked_empty (t : ContextTable) (source : ContextId) :
    t.Picked (fun _ => []) source .empty t :=
  ⟨List.prefix_rfl, fun u _ _ _ => u.first, fun _ => Or.inl⟩

theorem picked_intern {ctx : Context} (found : t.elements source = .ok ctx)
    (run : t.intern (f ctx) = (c, t')) : t.Picked f source c t' := by
  have known : t.table.get? source.index = some ctx := fetch_eq_ok_iff.1 found
  obtain ⟨rfl, rfl⟩ := Prod.mk.inj run
  have grows := Table.prefix_intern t.table (f ctx)
  refine ⟨grows, fun u grow ctx' known' => ?_, fun x mem => ?_⟩
  · rw [Table.get?_of_prefix (grows.trans grow) known] at known'
    obtain rfl := Option.some.inj known'
    exact Table.get?_of_prefix grow (Table.get?_intern t.table (f ctx))
  · exact (Table.mem_toList_intern.1 mem).imp_right fun same =>
      ⟨ctx, Table.mem_toList_of_get? known, same⟩

theorem picked_append {e : ContextElement} {limit : Nat}
    (run : t.append source e limit = .ok (c, t')) :
    t.Picked (fun ctx => lastN limit (ctx ++ [e])) source c t' := by
  by_cases none : limit = 0
  · rw [append_eq, if_pos none] at run
    obtain ⟨rfl, rfl⟩ := Prod.mk.inj (Except.ok.inj run)
    simp only [none, lastN_zero]
    exact picked_empty t source
  · rw [append_eq, if_neg none] at run
    obtain ⟨ctx, found, rest⟩ := bind_eq_ok_iff.1 run
    exact picked_intern found (Except.ok.inj rest)

theorem picked_truncate {limit : Nat} (run : t.truncate source limit = .ok (c, t')) :
    t.Picked (lastN limit) source c t' := by
  obtain ⟨ctx, found, rest⟩ := bind_eq_ok_iff.1 run
  split at rest
  · rename_i short
    have known : t.table.get? source.index = some ctx := fetch_eq_ok_iff.1 found
    obtain ⟨rfl, rfl⟩ := Prod.mk.inj (Except.ok.inj rest)
    refine ⟨List.prefix_rfl, fun u grow ctx' known' => ?_, fun _ => Or.inl⟩
    rw [Table.get?_of_prefix grow known] at known'
    obtain rfl := Option.some.inj known'
    rw [lastN_of_length_le short]
    exact Table.get?_of_prefix grow known
  · exact picked_intern found (Except.ok.inj rest)

end ContextTable

/-! ## Selectors that answer by a policy -/

/-- What a selector can be asked for. -/
inductive Selector.Offers (sel : Selector) : (ContextTable → Selection) → Prop where
  | call (site : CsCallSite) (callee : MethodId) : Offers sel fun t => sel.callContext t site callee
  | receiver (site : CsCallSite) (recv : CsObj) (obj : Obj) (callee : MethodId) :
      Offers sel fun t => sel.receiverContext t site recv obj callee
  | heap (m : CsMethod) (obj : Obj) : Offers sel fun t => sel.heapContext t m obj

namespace Policy

/-- The context that a policy gives to a method that is called on an object, from the contexts of the
call and of the object. -/
def calleeContext (q : Policy) (site : CsCallSite) (recv : CsObj) (obj : Obj)
    (caller heap : Context) : Context :=
  q.onReceiver (.callSite site.invoke) (.object recv.obj) (.type obj.containerClass) caller heap

end Policy

/-- Whatever a selector answers, it answers by a policy. A context for a call on an object is cut from
the context of the call or from that of the object, and does not depend on the other one. -/
structure Selector.Answers (sel : Selector) (q : Policy) : Prop where
  call {t t' : ContextTable} {site : CsCallSite} {callee : MethodId} {c : ContextId} :
    sel.callContext t site callee = .ok (c, t') →
      t.Picked (q.onCall (.callSite site.invoke)) site.context c t'
  receiver {t t' : ContextTable} {site : CsCallSite} {recv : CsObj} {obj : Obj} {callee : MethodId}
    {c : ContextId} : sel.receiverContext t site recv obj callee = .ok (c, t') →
      (∀ heap, t.Picked (fun caller => q.calleeContext site recv obj caller heap) site.context c t') ∨
      ∀ caller, t.Picked (q.calleeContext site recv obj caller) recv.context c t'
  heap {t t' : ContextTable} {m : CsMethod} {obj : Obj} {c : ContextId} :
    sel.heapContext t m obj = .ok (c, t') → t.Picked q.onAlloc m.context c t'

theorem Selector.ofStrategy_answers (s : Strategy) (heapDepth : Option Nat) :
    (Selector.ofStrategy s heapDepth).Answers ⟨s, heapDepth.getD (s.depth - 1)⟩ := by
  cases s with
  | insensitive =>
    refine ⟨fun run => ?_, fun run => Or.inl fun _ => ?_, fun run => ?_⟩ <;>
    · obtain ⟨rfl, rfl⟩ := Prod.mk.inj (Except.ok.inj run)
      exact ContextTable.picked_empty _ _
  | callSite k =>
    exact ⟨ContextTable.picked_append, fun run => Or.inl fun _ => ContextTable.picked_append run,
      ContextTable.picked_truncate⟩
  | object k | type k =>
    refine ⟨fun run => ?_, fun run => Or.inr fun _ => ContextTable.picked_append run,
      ContextTable.picked_truncate⟩
    obtain ⟨rfl, rfl⟩ := Prod.mk.inj (Except.ok.inj run)
    exact ContextTable.picked_self _ _

/-! ## Kinds of elements -/

/-- The elements that the contexts of a strategy are made of. -/
def Strategy.Owns : Strategy → ContextElement → Prop
  | .callSite _, .callSite _ | .object _, .object _ | .type _, .type _ => True
  | _, _ => False

namespace Policy

variable {q : Policy}

/-- A context is made of the elements of the strategy. -/
def Owns (q : Policy) (ctx : Context) : Prop :=
  ∀ e ∈ ctx, q.strategy.Owns e

theorem owns_nil (q : Policy) : q.Owns [] :=
  fun _ mem => absurd mem List.not_mem_nil

theorem Owns.lastN_append {ctx : Context} (owns : q.Owns ctx) {e : ContextElement}
    (own : q.strategy.Owns e) (n : Nat) : q.Owns (lastN n (ctx ++ [e])) := by
  intro e' mem
  rcases List.mem_append.1 (mem_of_mem_lastN mem) with old | new
  · exact owns e' old
  · rwa [List.mem_singleton.1 new]

theorem Owns.onCall {caller : Context} (owns : q.Owns caller) (i : InvokeId) :
    q.Owns (q.onCall (.callSite i) caller) := by
  obtain ⟨strategy, heapDepth⟩ := q
  cases strategy with
  | insensitive => exact owns_nil _
  | callSite k => exact owns.lastN_append (e := .callSite i) trivial k
  | object k => exact owns
  | type k => exact owns

theorem Owns.calleeContext {caller heap : Context} (callers : q.Owns caller) (heaps : q.Owns heap)
    (site : CsCallSite) (recv : CsObj) (obj : Obj) :
    q.Owns (q.calleeContext site recv obj caller heap) := by
  obtain ⟨strategy, heapDepth⟩ := q
  cases strategy with
  | insensitive => exact owns_nil _
  | callSite k => exact callers.lastN_append (e := .callSite site.invoke) trivial k
  | object k => exact heaps.lastN_append (e := .object recv.obj) trivial k
  | type k => exact heaps.lastN_append (e := .type obj.containerClass) trivial k

theorem Owns.onAlloc {allocator : Context} (owns : q.Owns allocator) :
    q.Owns (q.onAlloc allocator) :=
  fun e mem => owns e (mem_of_mem_onAlloc mem)

/-- The heap context of an object is the end of the context of the allocating method. -/
theorem onAlloc_suffix (q : Policy) (allocator : Context) : q.onAlloc allocator <:+ allocator := by
  unfold onAlloc
  split
  · exact List.nil_suffix
  all_goals exact List.drop_suffix _ _

theorem length_onAlloc_le_heapDepth (q : Policy) (allocator : Context) :
    (q.onAlloc allocator).length ≤ q.heapDepth := by
  unfold onAlloc
  split
  · exact Nat.zero_le _
  all_goals exact length_lastN_le _ _

end Policy

namespace Selector.Answers

variable {sel : Selector} {q : Policy} (answers : sel.Answers q) {t t' : ContextTable}
  {choose : ContextTable → Selection} {c : ContextId}
include answers

/-- Whatever is asked, contexts are cut from contexts of the same strategy. -/
theorem picked (offered : sel.Offers choose) (chosen : choose t = .ok (c, t')) :
    ∃ f source, t.Picked f source c t' ∧ ∀ ctx, q.Owns ctx → q.Owns (f ctx) := by
  cases offered with
  | call site callee => exact ⟨_, _, answers.call chosen, fun _ owns => owns.onCall _⟩
  | receiver site recv obj callee =>
    rcases answers.receiver chosen with picked | picked
    · exact ⟨_, _, picked [], fun _ owns => owns.calleeContext q.owns_nil site recv obj⟩
    · exact ⟨_, _, picked [], fun _ owns => q.owns_nil.calleeContext owns site recv obj⟩
  | heap m obj => exact ⟨_, _, answers.heap chosen, fun _ owns => owns.onAlloc⟩

theorem grows (offered : sel.Offers choose) (chosen : choose t = .ok (c, t')) :
    t.table.toList <+: t'.table.toList := by
  obtain ⟨f, source, picked, -⟩ := answers.picked offered chosen
  exact picked.grows

theorem owns (offered : sel.Offers choose) (chosen : choose t = .ok (c, t'))
    (owned : ∀ ctx ∈ t.table.toList, q.Owns ctx) : ∀ ctx ∈ t'.table.toList, q.Owns ctx := by
  obtain ⟨f, source, picked, keeps⟩ := answers.picked offered chosen
  intro ctx mem
  rcases picked.added ctx mem with old | ⟨ctx', old, rfl⟩
  · exact owned ctx old
  · exact keeps ctx' (owned ctx' old)

/-- The context of a call on an object, in a table that has the contexts of the call and of the
object. -/
theorem receiver_reads {site : CsCallSite} {recv : CsObj} {obj : Obj} {callee : MethodId}
    (chosen : sel.receiverContext t site recv obj callee = .ok (c, t')) {u : ContextTable}
    (grow : t'.table.toList <+: u.table.toList) {caller heap : Context}
    (callers : u.table.get? site.context.index = some caller)
    (heaps : u.table.get? recv.context.index = some heap) :
    u.table.get? c.index = some (q.calleeContext site recv obj caller heap) := by
  rcases answers.receiver chosen with picked | picked
  · exact (picked heap).cuts u grow caller callers
  · exact (picked caller).cuts u grow heap heaps

end Selector.Answers

end PointsTo
