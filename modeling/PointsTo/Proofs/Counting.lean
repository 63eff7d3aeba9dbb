import Mathlib.Algebra.BigOperators.Group.Finset.Sigma
import Mathlib.Algebra.GroupWithZero.Nat
import Mathlib.Data.Finset.Card
import Mathlib.Data.Finset.Range
import Mathlib.Data.List.Induction
import Mathlib.Data.List.Nodup
import Mathlib.Data.List.ProdSigma
import Mathlib.Tactic.Choose
import PointsTo.Id

/-!
# Counting

How many identifiers, sequences and pairs there are over finite ranges. A list without repetitions
is at most that long. The members of a list with a property are counted by their positions.
-/

namespace PointsTo

variable {α : Type}

/-! ## Identifiers -/

/-- Distinct identifiers with bounded positions. -/
theorem length_le_of_ids {e : Entity} {l : List (Id e)} (nodup : l.Nodup) {n : Nat}
    (inside : ∀ x ∈ l, x.index < n) : l.length ≤ n := by
  have distinct : (l.map Id.index).Nodup := nodup.map fun _ _ => Id.ext_index
  have listed : l.map Id.index ⊆ List.range n := by
    intro i mem
    obtain ⟨x, hx, rfl⟩ := List.mem_map.1 mem
    exact List.mem_range.2 (inside x hx)
  have length := distinct.length_le_of_subset listed
  rw [List.length_map, List.length_range] at length
  exact length

/-- Positions that stand for different values, if the image of each value has a position as well. -/
theorem le_of_readings {β : Type} {n n' : Nat} (read : Nat → Option α) (read' : Nat → Option β)
    {f : α → β} (injective : Function.Injective f)
    (unique : ∀ i j a, read i = some a → read j = some a → i = j)
    (image : ∀ i < n, ∃ a, read i = some a ∧ ∃ j < n', read' j = some (f a)) : n ≤ n' := by
  have moves : ∀ i < n, ∃ j, j < n' ∧ ∃ a, read i = some a ∧ read' j = some (f a) := by
    intro i inside
    obtain ⟨a, reads, j, inside', reads'⟩ := image i inside
    exact ⟨j, inside', a, reads, reads'⟩
  choose! position inside reads using moves
  have distinct : ((List.range n).map position).Nodup := by
    refine List.nodup_range.map_on fun i hi j hj same => ?_
    obtain ⟨a, first, image₁⟩ := reads i (List.mem_range.1 hi)
    obtain ⟨b, second, image₂⟩ := reads j (List.mem_range.1 hj)
    rw [same, image₂] at image₁
    rw [injective (Option.some.inj image₁)] at second
    exact unique i j a first second
  have listed : (List.range n).map position ⊆ List.range n' := by
    intro j mem
    obtain ⟨i, hi, rfl⟩ := List.mem_map.1 mem
    exact List.mem_range.2 (inside i (List.mem_range.1 hi))
  have length := distinct.length_le_of_subset listed
  rw [List.length_map, List.length_range, List.length_range] at length
  exact length

/-! ## Sequences -/

/-- All sequences of at most `k` elements of a list. -/
def sequences (alphabet : List α) : Nat → List (List α)
  | 0 => [[]]
  | k + 1 => [] :: alphabet.flatMap fun e => (sequences alphabet k).map (e :: ·)

theorem mem_sequences {alphabet : List α} {k : Nat} {l : List α} (short : l.length ≤ k)
    (elements : ∀ e ∈ l, e ∈ alphabet) : l ∈ sequences alphabet k := by
  induction k generalizing l with
  | zero =>
    have none : l = [] := List.eq_nil_of_length_eq_zero (Nat.le_zero.1 short)
    rw [none, sequences]
    exact List.mem_singleton_self []
  | succ k ih =>
    cases l with
    | nil => exact List.mem_cons_self
    | cons e l =>
      have rest := ih (Nat.le_of_succ_le_succ short) fun e' he' =>
        elements e' (List.mem_cons_of_mem e he')
      refine List.mem_cons_of_mem _ (List.mem_flatMap.2 ⟨e, elements e List.mem_cons_self, ?_⟩)
      exact List.mem_map_of_mem rest

theorem length_sequences_succ (alphabet : List α) (k : Nat) :
    (sequences alphabet (k + 1)).length = alphabet.length * (sequences alphabet k).length + 1 := by
  rw [sequences, List.length_cons, List.length_flatMap]
  simp only [List.length_map, List.map_const', List.sum_replicate_nat]

theorem length_sequences_le (alphabet : List α) (k : Nat) :
    (sequences alphabet k).length ≤ (alphabet.length + 1) ^ k := by
  induction k with
  | zero => exact Nat.le_refl 1
  | succ k ih =>
    have pos : 1 ≤ (alphabet.length + 1) ^ k := Nat.one_le_pow _ _ (Nat.succ_pos _)
    have step := Nat.mul_le_mul_left alphabet.length ih
    rw [length_sequences_succ, Nat.pow_succ, Nat.mul_add, Nat.mul_comm _ alphabet.length]
    omega

/-- Distinct short sequences over an alphabet. -/
theorem length_le_of_sequences {l : List (List α)} (nodup : l.Nodup) {alphabet : List α} {k : Nat}
    (short : ∀ a ∈ l, a.length ≤ k) (elements : ∀ a ∈ l, ∀ e ∈ a, e ∈ alphabet) :
    l.length ≤ (alphabet.length + 1) ^ k := by
  have listed : l ⊆ sequences alphabet k := fun a ha => mem_sequences (short a ha) (elements a ha)
  exact Nat.le_trans (nodup.length_le_of_subset listed) (length_sequences_le alphabet k)

/-! ## Pairs -/

/-- Distinct values that are told apart by a pair of bounded numbers. -/
theorem length_le_of_pairs {l : List α} (nodup : l.Nodup) {f : α → Nat × Nat} {m n : Nat}
    (injective : ∀ {a b}, f a = f b → a = b) (first : ∀ a ∈ l, (f a).1 < m)
    (second : ∀ a ∈ l, (f a).2 < n) : l.length ≤ m * n := by
  have distinct : (l.map f).Nodup := nodup.map fun _ _ same => injective same
  have listed : l.map f ⊆ List.range m ×ˢ List.range n := by
    intro pair mem
    obtain ⟨a, ha, rfl⟩ := List.mem_map.1 mem
    exact List.mem_product.2 ⟨List.mem_range.2 (first a ha), List.mem_range.2 (second a ha)⟩
  have length := distinct.length_le_of_subset listed
  rw [List.length_map, List.length_product, List.length_range, List.length_range] at length
  exact length

/-! ## Sums -/

/-- One member of a list is replaced. -/
theorem sum_map_set {l : List α} {f : α → Nat} {i : Nat} {a : α} (found : l[i]? = some a) (b : α) :
    ((l.set i b).map f).sum + f a = (l.map f).sum + f b := by
  induction l generalizing i with
  | nil => simp at found
  | cons c l ih =>
    cases i with
    | zero =>
      have same : c = a := by simpa using found
      rw [List.set_cons_zero, List.map_cons, List.map_cons, List.sum_cons, List.sum_cons, same]
      omega
    | succ i =>
      have rest := ih (i := i) (by simpa using found)
      rw [List.set_cons_succ, List.map_cons, List.map_cons, List.sum_cons, List.sum_cons]
      omega

theorem le_sum_map_of_mem {l : List α} {f : α → Nat} {a : α} (mem : a ∈ l) :
    f a ≤ (l.map f).sum := by
  induction l with
  | nil => exact absurd mem List.not_mem_nil
  | cons b l ih =>
    rw [List.map_cons, List.sum_cons]
    rcases List.mem_cons.1 mem with rfl | mem
    · exact Nat.le_add_right _ _
    · exact Nat.le_trans (ih mem) (Nat.le_add_left _ _)

theorem sum_map_le {l : List α} {f : α → Nat} {n : Nat} (bounds : ∀ a ∈ l, f a ≤ n) :
    (l.map f).sum ≤ l.length * n := by
  induction l with
  | nil => simp
  | cons a l ih =>
    have first := bounds a List.mem_cons_self
    have rest := ih fun b hb => bounds b (List.mem_cons_of_mem a hb)
    rw [List.map_cons, List.sum_cons, List.length_cons, Nat.add_mul, Nat.one_mul]
    omega

/-! ## Positions -/

/-- The positions of the members of a list with a property. -/
def positions (p : α → Bool) (l : List α) : Finset Nat :=
  (Finset.range l.length).filter fun n => l[n]?.any p

theorem mem_positions {p : α → Bool} {l : List α} {n : Nat} :
    n ∈ positions p l ↔ ∃ a, l[n]? = some a ∧ p a = true := by
  rw [positions, Finset.mem_filter, Finset.mem_range, Option.any_eq_true]
  constructor
  · exact And.right
  · rintro ⟨a, found, holds⟩
    exact ⟨(List.getElem?_eq_some_iff.1 found).1, a, found, holds⟩

/-- There are as many positions as members with a property. -/
theorem card_positions (p : α → Bool) (l : List α) : (positions p l).card = l.countP p := by
  induction l using List.reverseRecOn with
  | nil => rfl
  | append_singleton l a ih =>
    have earlier : ∀ n ∈ Finset.range l.length, (l ++ [a])[n]?.any p ↔ l[n]?.any p := by
      intro n mem
      rw [List.getElem?_append_left (Finset.mem_range.1 mem)]
    rw [positions, List.length_append, List.length_singleton, Finset.range_add_one,
      Finset.filter_insert, Finset.filter_congr earlier, List.countP_append, ← ih]
    by_cases holds : p a = true
    · simp [holds, positions]
    · simp [holds, positions]

/-- Pairs whose second members depend on the first. -/
theorem exists_pairs {β : Type} (l : Finset α) (f : α → Finset β) :
    ∃ pairs : Finset (α × β), (∀ a b, (a, b) ∈ pairs ↔ a ∈ l ∧ b ∈ f a) ∧
      pairs.card = ∑ a ∈ l, (f a).card := by
  refine ⟨(l.sigma f).map (Equiv.sigmaEquivProd α β).toEmbedding, fun a b => ?_, ?_⟩
  · rw [Finset.mem_map_equiv]
    exact Finset.mem_sigma
  · rw [Finset.card_map, Finset.card_sigma]

end PointsTo
