import PointsTo.Context.Strategy
import PointsTo.Element.Basic

/-!
# Context selectors

A selector picks the context of a called method and the heap context of an allocated object. It
works on the table of contexts, to which it may add. Every strategy has its selector: call-site
contexts come from the call, object and type contexts from the receiver, and a heap context is the
end of the context of the allocating method.
-/

namespace PointsTo

/-- The outcome of a selection: a context and the table that has it. -/
abbrev Selection := Except OutOfRange (ContextId × ContextTable)

/-- A policy on contexts. -/
structure Selector where
  /-- The short name of the policy. -/
  name : String
  /-- The context of a method that is called without a receiver. -/
  callContext : ContextTable → CsCallSite → MethodId → Selection
  /-- The context of a method that is called on an object. -/
  receiverContext : ContextTable → CsCallSite → CsObj → Obj → MethodId → Selection
  /-- The heap context of an object that a method allocates. -/
  heapContext : ContextTable → CsMethod → Obj → Selection

namespace Selector

/-- Everything in the empty context. -/
def insensitive : Selector where
  name := Strategy.insensitive.text
  callContext t _ _ := .ok (.empty, t)
  receiverContext t _ _ _ _ := .ok (.empty, t)
  heapContext t _ _ := .ok (.empty, t)

/-- The last `k` call sites; `hk` of them for objects. -/
def callSite (k hk : Nat) : Selector where
  name := (Strategy.callSite k).text
  callContext t site _ := t.append site.context (.callSite site.invoke) k
  receiverContext t site _ _ _ := t.append site.context (.callSite site.invoke) k
  heapContext t m _ := t.truncate m.context hk

/-- The last `k` objects of the receiver chain; `hk` of them for objects. A call without a receiver
keeps the context of its caller. -/
def object (k hk : Nat) : Selector where
  name := (Strategy.object k).text
  callContext t site _ := .ok (site.context, t)
  receiverContext t _ recv _ _ := t.append recv.context (.object recv.obj) k
  heapContext t m _ := t.truncate m.context hk

/-- The classes that allocate the last `k` objects of the receiver chain; `hk` of them for objects.
A call without a receiver keeps the context of its caller. -/
def type (k hk : Nat) : Selector where
  name := (Strategy.type k).text
  callContext t site _ := .ok (site.context, t)
  receiverContext t _ recv obj _ := t.append recv.context (.type obj.containerClass) k
  heapContext t m _ := t.truncate m.context hk

/-- The selector of a strategy. Heap contexts are one element shorter than method contexts unless a
depth is given. -/
def ofStrategy (s : Strategy) (heapDepth : Option Nat) : Selector :=
  let hk := heapDepth.getD (s.depth - 1)
  match s with
  | .insensitive => insensitive
  | .callSite k => callSite k hk
  | .object k => object k hk
  | .type k => type k hk

end Selector

end PointsTo
