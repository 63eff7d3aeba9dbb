import Mathlib.Logic.Relation
import PointsTo.Proofs.Closure

/-!
# Closures list keys by their distance

A closure is breadth first. The keys up to some number of links away from the seeds stand before all
others, since what follows them is listed while they are expanded. So of two keys the earlier is not
farther from the seeds than the later.
-/

namespace PointsTo

variable {κ ε : Type} {next : κ → Except ε (List κ)} {seeds : List κ}

/-- A number of links leads from the seeds to a key. -/
inductive PathTo (next : κ → Except ε (List κ)) (seeds : List κ) : Nat → κ → Prop where
  | seed {k : κ} (mem : k ∈ seeds) : PathTo next seeds 0 k
  | link {n : Nat} {k k' : κ} {ks : List κ} (before : PathTo next seeds n k)
      (successors : next k = .ok ks) (mem : k' ∈ ks) : PathTo next seeds (n + 1) k'

/-- Paths that start at a key are sequences of links. -/
theorem exists_pathTo_iff {r : κ → κ → Prop} {start k : κ}
    (links : ∀ k k', r k k' ↔ ∃ ks, next k = .ok ks ∧ k' ∈ ks) :
    (∃ n, PathTo next [start] n k) ↔ Relation.ReflTransGen r start k := by
  constructor
  · intro reached
    obtain ⟨n, path⟩ := reached
    induction path with
    | seed mem =>
      rw [List.mem_singleton.1 mem]
    | link _ successors mem ih => exact ih.tail ((links _ _).2 ⟨_, successors, mem⟩)
  · intro path
    induction path with
    | refl => exact ⟨0, .seed (List.mem_singleton_self start)⟩
    | tail _ link ih =>
      obtain ⟨n, before⟩ := ih
      obtain ⟨ks, successors, mem⟩ := (links _ _).1 link
      exact ⟨n + 1, .link before successors mem⟩

/-- At most a number of links lead from the seeds to a key. -/
def Within (next : κ → Except ε (List κ)) (seeds : List κ) (n : Nat) (k : κ) : Prop :=
  ∃ m ≤ n, PathTo next seeds m k

theorem within_zero_iff {k : κ} : Within next seeds 0 k ↔ k ∈ seeds := by
  constructor
  · rintro ⟨m, none, path⟩
    cases path with
    | seed mem => exact mem
    | link => omega
  · exact fun mem => ⟨0, Nat.le_refl 0, .seed mem⟩

theorem within_succ_iff {n : Nat} {k : κ} : Within next seeds (n + 1) k ↔
    k ∈ seeds ∨ ∃ k₀ ks, Within next seeds n k₀ ∧ next k₀ = .ok ks ∧ k ∈ ks := by
  constructor
  · rintro ⟨m, le, path⟩
    cases path with
    | seed mem => exact Or.inl mem
    | link before successors mem =>
      exact Or.inr ⟨_, _, ⟨_, Nat.le_of_succ_le_succ le, before⟩, successors, mem⟩
  · rintro (mem | ⟨k₀, ks, ⟨m, le, before⟩, successors, mem⟩)
    · exact ⟨0, Nat.zero_le _, .seed mem⟩
    · exact ⟨m + 1, Nat.succ_le_succ le, .link before successors mem⟩

namespace Table

variable [Keyed κ] {t t' u : Table κ} {i j a n : Nat} {k k' : κ}

/-- The keys of a table that has grown stand before those that have been added. -/
theorem mem_toList_iff_of_prefix (grow : u.toList <+: t.toList) :
    k ∈ u.toList ↔ ∃ j < u.size, t.get? j = some k := by
  rw [mem_toList_iff_get?]
  constructor
  · rintro ⟨j, found⟩
    exact ⟨j, lt_size_of_get? found, get?_of_prefix grow found⟩
  · rintro ⟨j, inside, found⟩
    exact ⟨j, by rwa [← get?_eq_of_prefix grow inside]⟩

/-- When the keys before a position have been expanded, the table has their successors and nothing
else that is new. -/
theorem Expands.exists_prefix (expands : Expands next i t t') (lower : i ≤ a)
    (upper : a ≤ t'.size) : ∃ u : Table κ, u.toList <+: t'.toList ∧ ∀ k, k ∈ u.toList ↔
      k ∈ t.toList ∨ ∃ j k₀ ks, i ≤ j ∧ j < a ∧ t'.get? j = some k₀ ∧ next k₀ = .ok ks ∧ k ∈ ks := by
  induction expands with
  | @done i t none =>
    have last : t.size ≤ i := by simpa [get?, size] using none
    refine ⟨t, List.prefix_rfl, fun k => ⟨Or.inl, ?_⟩⟩
    rintro (old | ⟨j, -, -, from_i, to_a, -⟩)
    · exact old
    · omega
  | @step i t t' k₀ ks₀ waiting successors rest ih =>
    by_cases here : a = i
    · refine ⟨t, (prefix_insertAll t ks₀).trans rest.grows, fun k => ⟨Or.inl, ?_⟩⟩
      rintro (old | ⟨j, -, -, from_i, to_a, -⟩)
      · exact old
      · omega
    · have found : t'.get? i = some k₀ :=
        get?_of_prefix ((prefix_insertAll t ks₀).trans rest.grows) waiting
      obtain ⟨u, grow, members⟩ := ih (by omega) upper
      refine ⟨u, grow, fun k => ?_⟩
      rw [members, mem_toList_insertAll]
      constructor
      · rintro ((old | new) | ⟨j, k', ks, from_i, to_a, later, successors', mem⟩)
        · exact Or.inl old
        · exact Or.inr ⟨i, k₀, ks₀, Nat.le_refl i, by omega, found, successors, new⟩
        · exact Or.inr ⟨j, k', ks, by omega, to_a, later, successors', mem⟩
      · rintro (old | ⟨j, k', ks, from_i, to_a, later, successors', mem⟩)
        · exact Or.inl (Or.inl old)
        · by_cases first : j = i
          · subst first
            rw [found] at later
            obtain rfl := Option.some.inj later
            rw [successors] at successors'
            obtain rfl := Except.ok.inj successors'
            exact Or.inl (Or.inr mem)
          · exact Or.inr ⟨j, k', ks, by omega, to_a, later, successors', mem⟩

variable (expands : Expands next 0 (.ofList seeds) t)
include expands

/-- The keys within a number of links stand before all others. -/
theorem Expands.exists_within_iff (n : Nat) :
    ∃ a ≤ t.size, ∀ k, Within next seeds n k ↔ ∃ j < a, t.get? j = some k := by
  induction n with
  | zero =>
    obtain ⟨u, grow, members⟩ := expands.exists_prefix (Nat.le_refl 0) (Nat.zero_le _)
    refine ⟨u.size, size_le_of_prefix grow, fun k => ?_⟩
    rw [within_zero_iff, ← mem_toList_iff_of_prefix grow, members, mem_toList_ofList]
    simp
  | succ n ih =>
    obtain ⟨a, inside, before⟩ := ih
    obtain ⟨u, grow, members⟩ := expands.exists_prefix (Nat.zero_le a) inside
    refine ⟨u.size, size_le_of_prefix grow, fun k => ?_⟩
    rw [within_succ_iff, ← mem_toList_iff_of_prefix grow, members, mem_toList_ofList]
    refine or_congr_right ⟨?_, ?_⟩
    · rintro ⟨k₀, ks, within, successors, mem⟩
      obtain ⟨j, less, found⟩ := (before k₀).1 within
      exact ⟨j, k₀, ks, Nat.zero_le j, less, found, successors, mem⟩
    · rintro ⟨j, k₀, ks, -, less, found, successors, mem⟩
      exact ⟨k₀, ks, (before k₀).2 ⟨j, less, found⟩, successors, mem⟩

/-- Of two keys the earlier is not farther away than the later. -/
theorem Expands.within_of_le (first : t.get? i = some k) (second : t.get? j = some k')
    (le : i ≤ j) (within : Within next seeds n k') : Within next seeds n k := by
  obtain ⟨a, -, before⟩ := expands.exists_within_iff n
  obtain ⟨j', less, found⟩ := (before k').1 within
  obtain rfl := get?_injective second found
  exact (before k).2 ⟨i, Nat.lt_of_le_of_lt le less, first⟩

/-- A closure has the keys that paths lead to, and no others. -/
theorem Expands.mem_toList_iff_pathTo : k ∈ t.toList ↔ ∃ n, PathTo next seeds n k := by
  constructor
  · have sound : ∀ {i : Nat} {t t' : Table κ}, Expands next i t t' →
        (∀ k ∈ t.toList, ∃ n, PathTo next seeds n k) → ∀ k ∈ t'.toList,
          ∃ n, PathTo next seeds n k := by
      intro i t t' expands
      induction expands with
      | done => exact id
      | step waiting successors _ ih =>
        intro known
        refine ih fun k mem => ?_
        rcases mem_toList_insertAll.1 mem with old | new
        · exact known k old
        · obtain ⟨n, before⟩ := known _ (mem_toList_of_get? waiting)
          exact ⟨n + 1, .link before successors new⟩
    exact sound expands (fun k mem => ⟨0, .seed (mem_toList_ofList.1 mem)⟩) k
  · rintro ⟨n, path⟩
    obtain ⟨a, -, before⟩ := expands.exists_within_iff n
    obtain ⟨j, -, found⟩ := (before k).1 ⟨n, Nat.le_refl n, path⟩
    exact mem_toList_of_get? found

end Table

end PointsTo
