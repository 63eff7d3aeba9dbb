import PointsTo.Proofs.Closure
import PointsTo.Proofs.Distinct

/-!
# Closures as walks with a queue

A closure keeps its queue and what it has listed in one table. The walk that it stands for has a queue
of its own, in which a key can wait several times: a key is visited when it comes out for the first
time, and passed over whenever it comes out again. Both visit the same keys in the same order.
-/

namespace PointsTo

variable {κ ε : Type} {next : κ → Except ε (List κ)} {visited queue order : List κ}

/-- A walk with a queue visits what comes out of the queue for the first time, and puts its successors
behind what is waiting. `order` is all that has been visited when the queue is empty. -/
inductive Visits (next : κ → Except ε (List κ)) : List κ → List κ → List κ → Prop where
  | done {visited : List κ} : Visits next visited [] visited
  | again {visited queue order : List κ} {k : κ} (known : k ∈ visited)
      (rest : Visits next visited queue order) : Visits next visited (k :: queue) order
  | visit {visited queue order ks : List κ} {k : κ} (new : k ∉ visited) (successors : next k = .ok ks)
      (rest : Visits next (visited ++ [k]) (queue ++ ks) order) : Visits next visited (k :: queue) order

theorem Visits.grows (visits : Visits next visited queue order) : visited <+: order := by
  induction visits with
  | done => exact List.prefix_rfl
  | again _ _ ih => exact ih
  | visit _ _ _ ih => exact (List.prefix_append _ _).trans ih

theorem Visits.of_known (known : ∀ k ∈ queue, k ∈ visited) : Visits next visited queue visited := by
  induction queue with
  | nil => exact .done
  | cons k queue ih =>
    rw [List.forall_mem_cons] at known
    exact .again known.1 (ih known.2)

/-- The keys of a table up to a position are those visited so far. What stands behind them are the new
keys of the queue, each where it is first. -/
theorem Table.Expands.visits [Keyed κ] [DecidableEq κ] {i : Nat} {t t' : Table κ}
    (expands : Table.Expands next i t t') (length : visited.length = i)
    (queued : t.toList = queue.foldl addNew visited) : Visits next visited queue t'.toList := by
  induction expands generalizing visited queue with
  | @done i t none =>
    have last : t.size ≤ i := by simpa [get?, size] using none
    have whole : visited = t.toList := by
      apply List.IsPrefix.eq_of_length_le
      · rw [queued]
        exact prefix_foldl_addNew queue visited
      · rw [length_toList, length]
        exact last
    rw [← whole]
    apply Visits.of_known
    intro k mem
    rw [whole, queued, mem_foldl_addNew]
    exact Or.inr mem
  | @step i t t' k ks waiting successors _ ih =>
    rw [get?_eq_getElem?_toList, queued] at waiting
    induction queue with
    | nil =>
      rw [List.foldl_nil, List.getElem?_eq_none (Nat.le_of_eq length)] at waiting
      cases waiting
    | cons a queue again =>
      rw [List.foldl_cons] at queued waiting
      by_cases known : a ∈ visited
      · rw [addNew, if_pos known] at queued waiting
        exact .again known (again waiting queued)
      · rw [addNew, if_neg known] at queued waiting
        -- the first new key of the queue is the one at the position
        have first : (queue.foldl addNew (visited ++ [a]))[i]? = some a := by
          obtain ⟨rest, same⟩ := prefix_foldl_addNew queue (visited ++ [a])
          rw [← same, ← length]
          simp
        rw [first] at waiting
        obtain rfl := Option.some.inj waiting
        apply Visits.visit known successors
        apply ih
        · simp [length]
        · rw [toList_insertAll, queued, List.foldl_append]

/-- A closure of some seeds is the walk that has the seeds in its queue. -/
theorem Table.Expands.visits_of_seeds [Keyed κ] [DecidableEq κ] {seeds : List κ} {t : Table κ}
    (expands : Table.Expands next 0 (.ofList seeds) t) : Visits next [] seeds t.toList :=
  expands.visits rfl (toList_ofList seeds)

end PointsTo
