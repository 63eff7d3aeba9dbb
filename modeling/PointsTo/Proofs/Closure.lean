import PointsTo.Closure
import PointsTo.Proofs.Counting
import PointsTo.Proofs.Table

/-!
# Closures are complete

A closure expands keys until none is waiting. Over finitely many keys it does so within its bound, so
the result is the one that the loop without a bound has: it has the seeds, and whatever follows one of
its keys.
-/

namespace PointsTo

variable {κ ε : Type} [Keyed κ] {next : κ → Except ε (List κ)} {good : κ → Prop}

theorem mem_toList_insertAll {t : Table κ} {ks : List κ} {k : κ} :
    k ∈ (t.insertAll ks).toList ↔ k ∈ t.toList ∨ k ∈ ks := by
  induction ks generalizing t with
  | nil => simp [Table.insertAll]
  | cons a ks ih =>
    have step : t.insertAll (a :: ks) = (t.insert a).insertAll ks := rfl
    rw [step, ih, Table.insert, Table.mem_toList_intern, List.mem_cons, or_assoc]

theorem prefix_insertAll (t : Table κ) (ks : List κ) : t.toList <+: (t.insertAll ks).toList := by
  induction ks generalizing t with
  | nil => exact List.prefix_rfl
  | cons a ks ih => exact (Table.prefix_intern t a).trans (ih (t.insert a))

theorem mem_toList_ofList {ks : List κ} {k : κ} : k ∈ (Table.ofList ks).toList ↔ k ∈ ks := by
  simp [Table.ofList, mem_toList_insertAll, Table.toList_empty]

/-- Expanding keys keeps those that are there. -/
theorem prefix_expandFrom {bound i : Nat} {t t' : Table κ}
    (done : Table.expandFrom next bound i t = .ok t') : t.toList <+: t'.toList := by
  induction bound generalizing i t with
  | zero =>
    cases done
    exact List.prefix_rfl
  | succ bound ih =>
    unfold Table.expandFrom at done
    cases present : t.get? i with
    | none =>
      simp only [present] at done
      cases done
      exact List.prefix_rfl
    | some k =>
      simp only [present] at done
      cases successors : next k with
      | error e =>
        rw [successors] at done
        cases done
      | ok ks =>
        rw [successors] at done
        exact (prefix_insertAll t ks).trans (ih done)

/-- What the loop of a closure does without a bound: it expands the keys from a position on until
there is none. -/
inductive Table.Expands (next : κ → Except ε (List κ)) : Nat → Table κ → Table κ → Prop where
  | done {i : Nat} {t : Table κ} (none : t.get? i = none) : Expands next i t t
  | step {i : Nat} {t t' : Table κ} {k : κ} {ks : List κ} (waiting : t.get? i = some k)
      (successors : next k = .ok ks) (rest : Expands next (i + 1) (t.insertAll ks) t') :
      Expands next i t t'

namespace Table

variable {i : Nat} {t t' : Table κ}

theorem Expands.grows (expands : Expands next i t t') : t.toList <+: t'.toList := by
  induction expands with
  | done => exact List.prefix_rfl
  | step _ _ _ ih => exact (prefix_insertAll _ _).trans ih

/-- The keys before a position have all their successors in the table. -/
def Expanded (next : κ → Except ε (List κ)) (i : Nat) (t : Table κ) : Prop :=
  ∀ j k ks, j < i → t.get? j = some k → next k = .ok ks → ∀ k' ∈ ks, k' ∈ t.toList

/-- The loop ends when all keys have their successors in the table. -/
theorem Expands.closed (expands : Expands next i t t') (before : t.Expanded next i) {k : κ}
    (mem : k ∈ t'.toList) {ks : List κ} (successors : next k = .ok ks) :
    ∀ k' ∈ ks, k' ∈ t'.toList := by
  induction expands with
  | @done i t none =>
    obtain ⟨j, found⟩ := mem_toList_iff_get?.1 mem
    apply before j k ks ?_ found successors
    have last : t.size ≤ i := by simpa [get?, size] using none
    exact Nat.lt_of_lt_of_le (lt_size_of_get? found) last
  | @step i t t' k₀ ks₀ waiting successors₀ rest ih =>
    apply ih ?_ mem
    intro j k ks less found successors k' listed
    by_cases last : j = i
    · -- the key that has just been expanded
      have here : (t.insertAll ks₀).get? j = some k₀ := by
        rw [last]
        exact get?_of_prefix (prefix_insertAll t ks₀) waiting
      rw [here] at found
      obtain rfl := Option.some.inj found
      rw [successors₀] at successors
      obtain rfl := Except.ok.inj successors
      exact mem_toList_insertAll.2 (Or.inr listed)
    · have earlier : j < i := by omega
      have inside : j < t.size := Nat.lt_trans earlier (lt_size_of_get? waiting)
      have kept := get?_eq_of_prefix (prefix_insertAll t ks₀) inside
      rw [kept] at found
      exact mem_toList_insertAll.2 (Or.inl (before j k ks earlier found successors k' listed))

end Table

/-- Over at most `n` keys whose successors are known, the loop ends within its bound. -/
theorem exists_expandFrom (known : ∀ k, good k → ∃ ks, next k = .ok ks ∧ ∀ k' ∈ ks, good k')
    {n : Nat} (finite : ∀ l : List κ, l.Nodup → (∀ k ∈ l, good k) → l.length ≤ n) (bound i : Nat)
    (t : Table κ) (room : n < i + bound) (inside : ∀ k ∈ t.toList, good k) :
    ∃ t', Table.expandFrom next bound i t = .ok t' ∧ Table.Expands next i t t' ∧
      ∀ k ∈ t'.toList, good k := by
  induction bound generalizing i t with
  | zero =>
    have small := finite t.toList (Table.nodup_toList t) inside
    rw [Table.length_toList] at small
    have none : t.get? i = none := by
      apply Array.getElem?_eq_none
      exact Nat.le_of_lt (Nat.lt_of_le_of_lt small room)
    exact ⟨t, rfl, .done none, inside⟩
  | succ bound ih =>
    unfold Table.expandFrom
    cases present : t.get? i with
    | none => exact ⟨t, rfl, .done present, inside⟩
    | some k =>
      obtain ⟨ks, found, succ⟩ := known k (inside k (Table.mem_toList_of_get? present))
      have grown : ∀ k' ∈ (t.insertAll ks).toList, good k' := by
        intro k' hk'
        rcases mem_toList_insertAll.1 hk' with old | new
        · exact inside k' old
        · exact succ k' new
      obtain ⟨t', done, expands, all⟩ := ih (i + 1) (t.insertAll ks) (by omega) grown
      refine ⟨t', ?_, .step present found expands, all⟩
      simp only [found]
      exact done

/-- A closure of identifiers of the entries of a table, each with known successors, exists. It is
what the loop without a bound leads to. -/
theorem exists_closure {e : Entity} {next : Id e → Except ε (List (Id e))} {n : Nat}
    {good : Id e → Prop} (inside : ∀ k, good k → k.index < n)
    (known : ∀ k, good k → ∃ ks, next k = .ok ks ∧ ∀ k' ∈ ks, good k') {seeds : List (Id e)}
    (start : ∀ k ∈ seeds, good k) :
    ∃ t, closure next n seeds = .ok t ∧ Table.Expands next 0 (.ofList seeds) t ∧
      ∀ k ∈ t.toList, good k := by
  apply exists_expandFrom known
    (fun l nodup all => length_le_of_ids nodup fun k hk => inside k (all k hk)) (n + 1) 0 _ (by omega)
  exact fun k hk => start k (mem_toList_ofList.1 hk)

/-- A closure has its seeds, and is closed under successors. -/
theorem Table.Expands.closed_of_seeds {seeds : List κ} {t : Table κ}
    (expands : Table.Expands next 0 (.ofList seeds) t) :
    (∀ k ∈ seeds, k ∈ t.toList) ∧
      ∀ k ∈ t.toList, ∀ ks, next k = .ok ks → ∀ k' ∈ ks, k' ∈ t.toList := by
  constructor
  · exact fun k hk => expands.grows.subset (mem_toList_ofList.2 hk)
  · intro k mem ks successors
    apply expands.closed ?_ mem successors
    intro j k ks less
    exact absurd less (Nat.not_lt_zero j)

end PointsTo
