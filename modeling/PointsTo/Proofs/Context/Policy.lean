import Mathlib.Data.List.DropRight
import PointsTo.Config.Basic
import PointsTo.Context.Selector
import PointsTo.Proofs.Table

/-!
# Context policies

What a strategy does to calling contexts, said about sequences of any elements. The same policy
then speaks of interned contexts, whose elements are identifiers, and of contexts whose objects are
named by their allocations. A selector follows a policy when it picks the contexts that the policy
says, whatever the table of contexts holds, and interns nothing else.
-/

namespace PointsTo

/-! ## The last elements of a list -/

section LastN

variable {α β : Type}

theorem lastN_eq_rtake (n : Nat) (l : List α) : lastN n l = l.rtake n :=
  rfl

theorem length_lastN_le (n : Nat) (l : List α) : (lastN n l).length ≤ n := by
  rw [lastN, List.length_drop]
  omega

theorem length_lastN_le_length (n : Nat) (l : List α) : (lastN n l).length ≤ l.length := by
  rw [lastN, List.length_drop]
  omega

theorem mem_of_mem_lastN {n : Nat} {l : List α} {a : α} (h : a ∈ lastN n l) : a ∈ l :=
  List.mem_of_mem_drop h

theorem lastN_of_length_le {n : Nat} {l : List α} (h : l.length ≤ n) : lastN n l = l := by
  rw [lastN, Nat.sub_eq_zero_of_le h, List.drop_zero]

theorem lastN_zero (l : List α) : lastN 0 l = [] := by
  rw [lastN_eq_rtake, List.rtake_zero]

theorem map_lastN (f : α → β) (n : Nat) (l : List α) : (lastN n l).map f = lastN n (l.map f) := by
  rw [lastN, lastN, List.map_drop, List.length_map]

theorem lastN_lastN (m n : Nat) (l : List α) : lastN m (lastN n l) = lastN (min m n) l := by
  rw [lastN, lastN, lastN, List.drop_drop, List.length_drop]
  congr 1
  omega

/-- Of a sequence with one more element, the last elements are that element and one fewer of the
others. -/
theorem lastN_succ_append_singleton (n : Nat) (l : List α) (a : α) :
    lastN (n + 1) (l ++ [a]) = lastN n l ++ [a] := by
  rw [lastN_eq_rtake, lastN_eq_rtake, List.rtake_concat_succ]

/-- Cutting off an extended sequence cuts off what is extended. -/
theorem lastN_lastN_append {m n : Nat} (le : m ≤ n) (l : List α) (a : α) :
    lastN m (lastN n (l ++ [a])) = lastN m (lastN m l ++ [a]) := by
  rw [lastN_lastN, Nat.min_eq_left le]
  cases m with
  | zero => rw [lastN_zero, lastN_zero]
  | succ m =>
    rw [lastN_succ_append_singleton, lastN_succ_append_singleton, lastN_lastN,
      Nat.min_eq_left (Nat.le_succ m)]

theorem ending_eq {n : Nat} {l : List α} (enough : n ≤ l.length) : ending n l enough = lastN n l :=
  rfl

theorem lastN_min_length (n : Nat) (l : List α) : lastN (min l.length n) l = lastN n l := by
  rw [lastN, lastN]
  congr 1
  omega

end LastN

namespace ContextTable

/-- What is kept of a context and the element behind it are the last elements of the whole. -/
theorem append_eq (t : ContextTable) (parent : ContextId) (e : ContextElement) (limit : Nat) :
    t.append parent e limit =
      if limit = 0 then .ok (.empty, t)
      else do return t.intern (lastN limit ((← t.elements parent) ++ [e])) := by
  cases limit with
  | zero => rfl
  | succ others =>
    simp only [append, ending_eq, lastN_min_length, lastN_succ_append_singleton]
    rfl

end ContextTable

/-! ## Policies -/

/-- A strategy together with the depth of its heap contexts. -/
structure Policy where
  strategy : Strategy
  heapDepth : Nat
deriving DecidableEq, Repr

/-- The policy of a configuration. -/
def Config.policy (c : Config) : Policy :=
  ⟨c.strategy, c.heapDepth.getD (c.strategy.depth - 1)⟩

namespace Policy

variable {ε δ : Type}

/-- The context of a method that is called at `site` without a receiver. -/
def onCall (q : Policy) (site : ε) (caller : List ε) : List ε :=
  match q.strategy with
  | .insensitive => []
  | .callSite k => lastN k (caller ++ [site])
  | .object _ | .type _ => caller

/-- The context of a method that is called at `site` on an object with a heap context. The object
itself and the class that allocates it are given as elements. -/
def onReceiver (q : Policy) (site object owner : ε) (caller heap : List ε) : List ε :=
  match q.strategy with
  | .insensitive => []
  | .callSite k => lastN k (caller ++ [site])
  | .object k => lastN k (heap ++ [object])
  | .type k => lastN k (heap ++ [owner])

/-- The heap context of an object that a method allocates. -/
def onAlloc (q : Policy) (allocator : List ε) : List ε :=
  match q.strategy with
  | .insensitive => []
  | .callSite _ | .object _ | .type _ => lastN q.heapDepth allocator

/-- Renaming the elements of contexts commutes with the policy. -/
theorem map_onCall (q : Policy) (f : ε → δ) (site : ε) (caller : List ε) :
    (q.onCall site caller).map f = q.onCall (f site) (caller.map f) := by
  unfold onCall
  split <;> simp [map_lastN]

theorem map_onReceiver (q : Policy) (f : ε → δ) (site object owner : ε) (caller heap : List ε) :
    (q.onReceiver site object owner caller heap).map f =
      q.onReceiver (f site) (f object) (f owner) (caller.map f) (heap.map f) := by
  unfold onReceiver
  split <;> simp [map_lastN]

theorem map_onAlloc (q : Policy) (f : ε → δ) (allocator : List ε) :
    (q.onAlloc allocator).map f = q.onAlloc (allocator.map f) := by
  unfold onAlloc
  split <;> simp [map_lastN]

/-! The length and the elements of the contexts of a policy. -/

section Bounds

variable {ε : Type} {site object owner e : ε} {caller heap allocator : List ε}

theorem length_onCall_le (q : Policy) (short : caller.length ≤ q.strategy.depth) :
    (q.onCall site caller).length ≤ q.strategy.depth := by
  unfold onCall
  split
  · exact Nat.zero_le _
  · rename_i k strategy
    rw [strategy]
    exact length_lastN_le k _
  · exact short
  · exact short

theorem length_onReceiver_le (q : Policy) :
    (q.onReceiver site object owner caller heap).length ≤ q.strategy.depth := by
  unfold onReceiver
  split
  · exact Nat.zero_le _
  all_goals
    rename_i k strategy
    rw [strategy]
    exact length_lastN_le k _

theorem length_onAlloc_le (q : Policy) (short : allocator.length ≤ q.strategy.depth) :
    (q.onAlloc allocator).length ≤ q.strategy.depth := by
  unfold onAlloc
  split
  · exact Nat.zero_le _
  all_goals exact Nat.le_trans (length_lastN_le_length _ _) short

theorem mem_of_mem_onCall {q : Policy} (mem : e ∈ q.onCall site caller) : e = site ∨ e ∈ caller := by
  unfold onCall at mem
  split at mem
  · exact absurd mem List.not_mem_nil
  · have listed := mem_of_mem_lastN mem
    rw [List.mem_append, List.mem_singleton] at listed
    exact listed.symm
  · exact Or.inr mem
  · exact Or.inr mem

theorem mem_of_mem_onReceiver {q : Policy}
    (mem : e ∈ q.onReceiver site object owner caller heap) :
    e = site ∨ e = object ∨ e = owner ∨ e ∈ caller ∨ e ∈ heap := by
  unfold onReceiver at mem
  split at mem
  · exact absurd mem List.not_mem_nil
  all_goals
    have listed := mem_of_mem_lastN mem
    rw [List.mem_append, List.mem_singleton] at listed
    rcases listed with listed | rfl <;> simp [*]

theorem mem_of_mem_onAlloc {q : Policy} (mem : e ∈ q.onAlloc allocator) : e ∈ allocator := by
  unfold onAlloc at mem
  split at mem
  · exact absurd mem List.not_mem_nil
  all_goals exact mem_of_mem_lastN mem

end Bounds

end Policy

/-! ## Selectors that follow a policy -/

/-- A selection succeeds with a context of the given elements, and interns at most that one. -/
def Selects (t : ContextTable) (r : Selection) (ctx : Context) : Prop :=
  ∃ c t', r = .ok (c, t') ∧ t'.table.get? c.index = some ctx ∧
    t.table.toList <+: t'.table.toList ∧
    ∀ x ∈ t'.table.toList, x ∈ t.table.toList ∨ x = ctx

/-- A selector picks the contexts that a policy says. -/
structure Selector.Follows (sel : Selector) (q : Policy) : Prop where
  call {t : ContextTable} {site : CsCallSite} {ctx : Context} (callee : MethodId) :
    t.table.get? site.context.index = some ctx →
      Selects t (sel.callContext t site callee) (q.onCall (.callSite site.invoke) ctx)
  receiver {t : ContextTable} {site : CsCallSite} {ctx : Context} {recv : CsObj} {heap : Context}
    (obj : Obj) (callee : MethodId) :
    t.table.get? site.context.index = some ctx → t.table.get? recv.context.index = some heap →
      Selects t (sel.receiverContext t site recv obj callee)
        (q.onReceiver (.callSite site.invoke) (.object recv.obj) (.type obj.containerClass) ctx heap)
  heap {t : ContextTable} {m : CsMethod} {ctx : Context} (obj : Obj) :
    t.table.get? m.context.index = some ctx → Selects t (sel.heapContext t m obj) (q.onAlloc ctx)

namespace Selects

variable {t : ContextTable} {c : ContextId} {ctx : Context}

/-- A context that is in the table is selected as it is. -/
theorem of_get? (h : t.table.get? c.index = some ctx) : Selects t (.ok (c, t)) ctx :=
  ⟨c, t, rfl, h, List.prefix_rfl, fun _ => Or.inl⟩

theorem empty (t : ContextTable) : Selects t (.ok (.empty, t)) [] :=
  of_get? t.first

theorem intern (t : ContextTable) (ctx : Context) : Selects t (.ok (t.intern ctx)) ctx :=
  ⟨_, _, rfl, Table.get?_intern t.table ctx, Table.prefix_intern t.table ctx,
    fun _ => Table.mem_toList_intern.1⟩

theorem append (e : ContextElement) (limit : Nat) (h : t.table.get? c.index = some ctx) :
    Selects t (t.append c e limit) (lastN limit (ctx ++ [e])) := by
  by_cases none : limit = 0
  · rw [ContextTable.append_eq, if_pos none, none, lastN_zero]
    exact empty t
  · have found : t.elements c = .ok ctx := fetch_eq_ok_iff.2 h
    rw [ContextTable.append_eq, if_neg none, found]
    exact intern t _

theorem truncate (limit : Nat) (h : t.table.get? c.index = some ctx) :
    Selects t (t.truncate c limit) (lastN limit ctx) := by
  have found : t.elements c = .ok ctx := fetch_eq_ok_iff.2 h
  have unfolded : t.truncate c limit =
      if ctx.length ≤ limit then .ok (c, t) else .ok (t.intern (lastN limit ctx)) := by
    rw [ContextTable.truncate, found]
    rfl
  rw [unfolded]
  split
  · rename_i short
    rw [lastN_of_length_le short]
    exact of_get? h
  · exact intern t _

end Selects

/-- The selector of a strategy follows the policy of the strategy. -/
theorem Selector.ofStrategy_follows (s : Strategy) (heapDepth : Option Nat) :
    (Selector.ofStrategy s heapDepth).Follows ⟨s, heapDepth.getD (s.depth - 1)⟩ := by
  cases s with
  | insensitive =>
    exact ⟨fun _ _ => .empty _, fun _ _ _ _ => .empty _, fun _ _ => .empty _⟩
  | callSite k =>
    exact ⟨fun _ h => .append _ k h, fun _ _ h _ => .append _ k h, fun _ h => .truncate _ h⟩
  | object k =>
    exact ⟨fun _ h => .of_get? h, fun _ _ _ h => .append _ k h, fun _ h => .truncate _ h⟩
  | type k =>
    exact ⟨fun _ h => .of_get? h, fun _ _ _ h => .append _ k h, fun _ h => .truncate _ h⟩

end PointsTo
