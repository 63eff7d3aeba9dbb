import PointsTo.Proofs.Inclusion.Simulation

/-!
# Abstractions of contexts

Two policies on contexts give two systems of inclusion rules. A map of contexts that commutes with
both policies is a simulation, so whatever the finer policy lets an analysis find out has an image
among what the coarser one lets it find out. Forgetting contexts, cutting them off, and
naming objects by the classes that allocate them are such maps.
-/

namespace PointsTo

open Inclusion

/-! ## Finer policies -/

namespace Policy

/-- Contexts have elements if the strategy tells any runs apart, and heap contexts are not deeper than
method contexts. -/
def Valid (q : Policy) : Prop :=
  q.strategy ≠ .insensitive → 0 < q.strategy.depth ∧ q.heapDepth ≤ q.strategy.depth

/-- The first policy tells apart whatever the second does. -/
inductive Refines : Policy → Policy → Prop where
  | insensitive {F : Policy} {hk : Nat} : Refines F ⟨.insensitive, hk⟩
  | callSite {k k' hk hk' : Nat} (depth : k' ≤ k) (heapDepth : hk' ≤ hk) :
      Refines ⟨.callSite k, hk⟩ ⟨.callSite k', hk'⟩
  | object {k k' hk hk' : Nat} (depth : k' ≤ k) (heapDepth : hk' ≤ hk) :
      Refines ⟨.object k, hk⟩ ⟨.object k', hk'⟩
  | type {k k' hk hk' : Nat} (depth : k' ≤ k) (heapDepth : hk' ≤ hk) :
      Refines ⟨.type k, hk⟩ ⟨.type k', hk'⟩
  | allocator {k hk : Nat} : Refines ⟨.object k, hk⟩ ⟨.type k, hk⟩

end Policy

theorem Config.valid_policy {c : Config} (valid : c.check = .ok ()) : c.policy.Valid := by
  intro sensitive
  have sensitive : c.strategy ≠ .insensitive := sensitive
  unfold check at valid
  simp only at valid
  split at valid
  · cases valid
  · rename_i range
    have depth : 1 ≤ c.strategy.depth := by
      refine Classical.byContradiction fun none => range ⟨sensitive, fun inside => none inside.1⟩
    refine ⟨depth, ?_⟩
    show c.heapDepth.getD (c.strategy.depth - 1) ≤ c.strategy.depth
    split at valid
    · rename_i hk given
      rw [given, Option.getD_some]
      split at valid
      · cases valid
      · omega
    · rename_i absent
      rw [absent, Option.getD_none]
      omega

namespace Inclusion

variable {h : Hierarchy} {F G : Policy}

/-! ## Maps of contexts -/

/-- A map of contexts that commutes with two policies. -/
structure Abstraction (h : Hierarchy) (F G : Policy) where
  onTrail : Trail → Trail
  onHeap : Trail → Trail
  nil : onTrail [] = []
  call (t : Trail) (i : InvokeId) : onTrail (F.callTrail t i) = G.callTrail (onTrail t) i
  receiver {o : HeapObj} {a : Allocation} (t : Trail) (i : InvokeId)
    (allocates : h.program.allocation? o.site = some a) :
    onTrail (F.receiverTrail t i o a) = G.receiverTrail (onTrail t) i ⟨onHeap o.trail, o.site⟩ a
  alloc (t : Trail) : onHeap (F.heapTrail t) = G.heapTrail (onTrail t)

namespace Abstraction

variable (A : Abstraction h F G)

/-- The program simulates itself when it forgets what the map forgets. -/
def simulation {h' : Hierarchy} (same : h' = h) : Simulation h h' F G where
  onTrail := A.onTrail
  onHeap := A.onHeap
  onSite := id
  embeds := by
    rw [same]
    exact .refl h
  nil := A.nil
  call := A.call
  receiver := A.receiver
  alloc := A.alloc

include A in
/-- The coarser analysis meets every call that the finer one meets. -/
theorem badCall (bad : BadCall h F) : BadCall h G :=
  (A.simulation rfl).badCall bad

end Abstraction

/-! ## Maps for finer policies -/

/-- All contexts are forgotten. -/
def Abstraction.forget {hk : Nat} : Abstraction h F ⟨.insensitive, hk⟩ where
  onTrail _ := []
  onHeap _ := []
  nil := rfl
  call _ _ := rfl
  receiver _ _ _ := rfl
  alloc _ := rfl

/-- Call sites are cut off. -/
def Abstraction.callSite {k k' hk hk' : Nat} (depth : k' ≤ k) (heapDepth : hk' ≤ hk)
    (short : hk' ≤ k') : Abstraction h ⟨.callSite k, hk⟩ ⟨.callSite k', hk'⟩ where
  onTrail := lastN k'
  onHeap := lastN hk'
  nil := lastN_of_length_le (Nat.zero_le _)
  call t i := lastN_lastN_append depth t (.callSite i)
  receiver t i _ := lastN_lastN_append depth t (.callSite i)
  alloc t := by
    show lastN hk' (lastN hk t) = lastN hk' (lastN k' t)
    rw [lastN_lastN, lastN_lastN, Nat.min_eq_left heapDepth, Nat.min_eq_left short]

/-- The context of a call on an object keeps one element more than the heap context that it
extends. -/
theorem lastN_receiver {α : Type} {k k' hk : Nat} (depth : k' ≤ k) (positive : 0 < k') (l : List α)
    (e : α) : lastN (min k' (hk + 1)) (lastN k (l ++ [e])) = lastN k' (lastN hk l ++ [e]) := by
  obtain ⟨n, rfl⟩ : ∃ n, k' = n + 1 := ⟨k' - 1, by omega⟩
  have cut : min (min (n + 1) (hk + 1)) k = min n hk + 1 := by omega
  rw [lastN_lastN, cut, lastN_succ_append_singleton, lastN_succ_append_singleton, lastN_lastN]

theorem lastN_allocator {α : Type} {k' hk hk' : Nat} (heapDepth : hk' ≤ hk) (short : hk' ≤ k')
    (l : List α) : lastN hk' (lastN hk l) = lastN hk' (lastN (min k' (hk' + 1)) l) := by
  have cut : min hk' (min k' (hk' + 1)) = hk' := by omega
  rw [lastN_lastN, lastN_lastN, Nat.min_eq_left heapDepth, cut]

section Receivers

variable {k k' hk hk' : Nat} (depth : k' ≤ k) (heapDepth : hk' ≤ hk) (positive : 0 < k')
  (short : hk' ≤ k')
include depth heapDepth positive short

/-- Receiver objects are cut off. -/
def Abstraction.object : Abstraction h ⟨.object k, hk⟩ ⟨.object k', hk'⟩ where
  onTrail := lastN (min k' (hk' + 1))
  onHeap := lastN hk'
  nil := lastN_of_length_le (Nat.zero_le _)
  call _ _ := rfl
  receiver {o _} _ _ _ := lastN_receiver depth positive o.trail (.object o.site)
  alloc t := lastN_allocator heapDepth short t

/-- Classes that allocate receiver objects are cut off. -/
def Abstraction.type : Abstraction h ⟨.type k, hk⟩ ⟨.type k', hk'⟩ where
  onTrail := lastN (min k' (hk' + 1))
  onHeap := lastN hk'
  nil := lastN_of_length_le (Nat.zero_le _)
  call _ _ := rfl
  receiver {o a} _ _ _ := lastN_receiver depth positive o.trail (.type a.owner)
  alloc t := lastN_allocator heapDepth short t

end Receivers

/-- An object is named by the class that allocates it. -/
def Mark.allocator (h : Hierarchy) : Mark → Mark
  | .object site =>
    match h.program.allocation? site with
    | some a => .type a.owner
    | none => .object site
  | m => m

/-- Objects are named by the classes that allocate them. -/
def Abstraction.allocator {k hk : Nat} : Abstraction h ⟨.object k, hk⟩ ⟨.type k, hk⟩ where
  onTrail := List.map (Mark.allocator h)
  onHeap := List.map (Mark.allocator h)
  nil := rfl
  call _ _ := rfl
  receiver {o a} t i allocates := by
    have owner : Mark.allocator h (.object o.site) = .type a.owner := by
      rw [Mark.allocator, allocates]
    show (lastN k (o.trail ++ [Mark.object o.site])).map (Mark.allocator h) =
      lastN k (o.trail.map (Mark.allocator h) ++ [.type a.owner])
    rw [map_lastN, List.map_append, List.map_singleton, owner]
  alloc t := map_lastN (Mark.allocator h) hk t

/-- A finer policy has an abstraction to a coarser one. -/
theorem exists_abstraction (h : Hierarchy) (refines : F.Refines G) (valid : G.Valid) :
    Nonempty (Abstraction h F G) := by
  cases refines with
  | insensitive => exact ⟨.forget⟩
  | callSite depth heapDepth =>
    obtain ⟨-, short⟩ := valid (by simp)
    exact ⟨.callSite depth heapDepth short⟩
  | object depth heapDepth =>
    obtain ⟨positive, short⟩ := valid (by simp)
    exact ⟨.object depth heapDepth positive short⟩
  | type depth heapDepth =>
    obtain ⟨positive, short⟩ := valid (by simp)
    exact ⟨.type depth heapDepth positive short⟩
  | allocator => exact ⟨.allocator⟩

end Inclusion

end PointsTo
