import PointsTo.Proofs.Solver.Delivery

/-!
# What the worklist costs

The load of a state is the number of propagations that have been scheduled so far. Its credit is
what a run has earned: something for each flow edge, for each reachable method and for each object
in a points-to set. An operation adds to the load no more than to the credit, but for a number of
propagations that its caller pays for out of its own earnings. So the load stays below the credit,
and the credit is bounded by the sizes of tables.
-/

namespace PointsTo

variable {P : Problem}

namespace SolverState

/-- The pending propagations, processed or not. -/
def load (s : SolverState P) : Nat :=
  s.stats.iterations + s.worklist.size

/-- What pays for pending propagations, if no body has more than `bound` statements and no variable
more than `bound` calls. -/
def credit (bound : Nat) (s : SolverState P) : Nat :=
  s.flow.size + bound * s.callGraph.reachable.size + (bound + s.flow.size) * s.stats.propagations

/-- Changes that cost at most `n` propagations more than they earn. -/
structure Moved (bound n : Nat) (s s' : SolverState P) : Prop where
  changes : Changes s s'
  cost : s.flow.Indexed → s'.load + s.credit bound ≤ s.load + s'.credit bound + n

variable {bound m n : Nat} {s s' s'' : SolverState P}

theorem Moved.refl (s : SolverState P) : s.Moved bound n s :=
  ⟨.refl, fun _ => by omega⟩

theorem indexed_of_change (change : Change s s') (indexed : s.flow.Indexed) : s'.flow.Indexed := by
  cases change with
  | flow new found => exact indexed.addEdge new
  | propagate objects found =>
    rw [flow_propagated]
    exact indexed
  | deliver head found =>
    rw [delivered, flow_propagated]
    exact indexed
  | _ => exact indexed

theorem indexed_of_changes (changes : Changes s s') (indexed : s.flow.Indexed) : s'.flow.Indexed := by
  induction changes with
  | refl => exact indexed
  | tail _ change ih => exact indexed_of_change change ih

theorem Moved.trans (first : s.Moved bound m s') (second : s'.Moved bound n s'') :
    s.Moved bound (m + n) s'' where
  changes := first.changes.trans second.changes
  cost indexed := by
    have earlier := first.cost indexed
    have later := second.cost (indexed_of_changes first.changes indexed)
    omega

theorem Moved.mono (moved : s.Moved bound m s') (le : m ≤ n) : s.Moved bound n s' where
  changes := moved.changes
  cost indexed := by
    have := moved.cost indexed
    omega

/-- A change that neither schedules nor earns anything. -/
theorem Moved.quiet (change : Change s s') (load : s'.load = s.load)
    (credit : s'.credit bound = s.credit bound) : s.Moved bound n s' where
  changes := .single change
  cost _ := by omega

/-! ## Changes that schedule or earn -/

theorem load_schedule (e : Pending) :
    SolverState.load { s with worklist := s.worklist.add e } = s.load + 1 := by
  simp only [load, Worklist.size, Worklist.add, List.length_cons]
  omega

theorem Moved.schedule (e : Pending) : s.Moved bound 1 { s with worklist := s.worklist.add e } where
  changes := .single (.schedule s e)
  cost _ := by
    have credit : SolverState.credit bound { s with worklist := s.worklist.add e } =
        s.credit bound := rfl
    rw [load_schedule, credit]
    omega

/-- A new flow edge pays for the propagation that it comes with. -/
theorem Moved.flow {e : FlowEdge} {objects : ObjectSet} (new : s.flow.hasEdge e = false)
    (found : s.elements.pointsToSet e.source = .ok objects) :
    s.Moved bound 0 { s with
      flow := (s.flow.addEdge e).2
      worklist := if objects.isEmpty then s.worklist else s.worklist.add ⟨e.target, objects⟩ } where
  changes := .single (.flow new found)
  cost _ := by
    have size := FlowGraph.size_addEdge new
    have product : (bound + s.flow.size) * s.stats.propagations ≤
        (bound + (s.flow.size + 1)) * s.stats.propagations :=
      Nat.mul_le_mul_right _ (by omega)
    simp only [load, credit, size]
    split
    · omega
    · simp only [Worklist.size, Worklist.add, List.length_cons]
      omega

/-- A method that becomes reachable earns as much as a body can have statements. -/
theorem credit_addReachable (bound : Nat) {m : CsMethodId} (sites : List CsCallSiteId)
    (new : s.callGraph.isReachable m = false) :
    SolverState.credit bound { s with callGraph := (s.callGraph.addReachable m sites).2 } =
      s.credit bound + bound := by
  simp only [credit, CallGraph.size_reachable_addReachable sites new, Nat.mul_add]
  omega

theorem size_foldl_add (w : Worklist) (targets : List PointerId) (objects : ObjectSet) :
    (targets.foldl (fun w t => w.add ⟨t, objects⟩) w).size = w.size + targets.length := by
  rw [Worklist.size_eq_length_toList, toList_foldl_add, List.length_append, List.length_map,
    Worklist.size_eq_length_toList]

/-- Objects that are new to a location pay for their propagation along its edges, and each of them
earns as much as a variable can have calls. -/
theorem cost_propagated (bound : Nat) (indexed : s.flow.Indexed) (p : PointerId)
    (known objects : ObjectSet) :
    (s.propagated p known objects).load + s.credit bound + bound * (known.fresh objects).size ≤
      s.load + (s.propagated p known objects).credit bound := by
  by_cases none : (known.fresh objects).isEmpty
  · have zero : (known.fresh objects).size = 0 := by
      simpa [IdSet.isEmpty, IdSet.size] using none
    rw [propagated, if_pos none, zero]
    omega
  · have some := IdSet.size_pos_of_not_isEmpty (Bool.not_eq_true _ ▸ none)
    have degree := indexed.length_targetsOf p
    have sends : s.flow.size ≤ s.flow.size * (known.fresh objects).size :=
      Nat.le_mul_of_pos_right _ some
    rw [propagated, if_neg none]
    simp only [load, credit, size_foldl_add, Nat.mul_add, Nat.add_mul]
    omega

theorem load_taken {e : Pending} {rest : Worklist} (head : s.worklist.poll = some (e, rest)) :
    (s.taken rest).load = s.load := by
  have size : s.worklist.size = rest.size + 1 := by
    rw [Worklist.size_eq_length_toList, Worklist.toList_eq_cons_of_poll head, List.length_cons,
      Worklist.size_eq_length_toList]
  simp only [load, taken, size]
  omega

theorem cost_delivered (bound : Nat) {e : Pending} {rest : Worklist} (known : ObjectSet)
    (head : s.worklist.poll = some (e, rest)) (indexed : s.flow.Indexed) :
    (s.delivered e rest known).load + s.credit bound + bound * (known.fresh e.objects).size ≤
      s.load + (s.delivered e rest known).credit bound := by
  have cost := cost_propagated (s := s.taken rest) bound indexed e.target known e.objects
  have credit : (s.taken rest).credit bound = s.credit bound := rfl
  rw [load_taken head, credit] at cost
  exact cost

end SolverState

end PointsTo
