import PointsTo.Proofs.CallGraph.Projection
import PointsTo.Proofs.Solver.Justified

/-!
# The order of entries

Only the start of an analysis makes entries of the call graph, and it does so in the order of the
program. Everything else leaves them as they are.
-/

namespace PointsTo

open Relation (ReflTransGen)

variable {P : Problem} {hand : Prop}

namespace SolverState

variable {s s' : SolverState P} {l : List MethodId}

theorem entries_of_justified (steps : ReflTransGen (Justified hand) s s') :
    s'.callGraph.entries = s.callGraph.entries := by
  induction steps with
  | refl => rfl
  | tail _ step ih =>
    cases step with
    | quiet _ _ _ _ same => exact same.trans ih
    | reach => exact (CallGraph.entries_addReachable _ _ _).trans ih
    | select | place => exact ih
    | call => exact (CallGraph.entries_addEdge _ _).trans ih

/-- The entries of the call graph are the given methods in the empty context, in their order. -/
def Entered (s : SolverState P) (l : List MethodId) : Prop :=
  s.callGraph.entries.toList.mapM s.elements.csMethodAt = .ok (l.map fun e => ⟨.empty, e⟩)

theorem entered_initial : (initial P).Entered [] :=
  rfl

theorem Entered.mem_iff (entered : s.Entered l) {m : MethodId} :
    m ∈ l ↔ ∃ entry ∈ s.callGraph.entries.toList,
      s.elements.csMethodAt entry = .ok ⟨.empty, m⟩ := by
  rw [← mem_of_mapM_eq_ok entered]
  simp

theorem Entered.justified (entered : s.Entered l) (steps : ReflTransGen (Justified hand) s s') :
    s'.Entered l := by
  rw [Entered, entries_of_justified steps, mapM_eq_ok_iff, ← mapM_eq_ok_iff.1 entered]
  refine List.map_congr_left fun entry listed => ?_
  have known : s.elements.csMethodAt entry ∈ (l.map fun e => ⟨.empty, e⟩).map Except.ok := by
    rw [← mapM_eq_ok_iff.1 entered]
    exact List.mem_map_of_mem listed
  obtain ⟨x, -, known⟩ := List.mem_map.1 known
  rw [← known, ElementStore.csMethodAt, fetch_eq_ok_iff]
  exact Table.get?_of_prefix (kept_of_justified steps).methods (fetch_eq_ok_iff.1 known.symm)

/-- An entry is added behind the others, unless its method has been entered. -/
theorem Entered.addEntry (entered : s.Entered l) {entry : CsMethodId} {m : MethodId}
    (known : s.elements.csMethodAt entry = .ok ⟨.empty, m⟩) :
    Entered { s with callGraph := s.callGraph.addEntry entry } (addNew l m) := by
  have same : entry ∈ s.callGraph.entries.toList ↔ m ∈ l := by
    rw [entered.mem_iff]
    constructor
    · exact fun listed => ⟨entry, listed, known⟩
    · rintro ⟨entry', listed, known'⟩
      rwa [Id.ext_index (Table.get?_injective (fetch_eq_ok_iff.1 known) (fetch_eq_ok_iff.1 known'))]
  have added : (s.callGraph.addEntry entry).entries.toList = addNew s.callGraph.entries.toList entry :=
    Table.toList_insert s.callGraph.entries entry
  rw [Entered, added]
  by_cases old : m ∈ l
  · rw [addNew, if_pos (same.2 old), addNew, if_pos old]
    exact entered
  · rw [addNew, if_neg fun listed => old (same.1 listed), addNew, if_neg old, mapM_eq_ok_iff,
      List.map_append, mapM_eq_ok_iff.1 entered, List.map_append, List.map_append, List.map_singleton,
      known, List.map_singleton, List.map_singleton]

end SolverState

namespace Solve

open SolverState (Entered Justified)

variable {s s' : SolverState P} {l : List MethodId}

theorem enter_entered (entered : s.Entered l) {m : MethodId} (run : enter m s = .ok () s') :
    s'.Entered (addNew l m) := by
  obtain ⟨entry, s₁, first, rest⟩ := bind_run_eq_ok run
  obtain ⟨⟨⟩, s₂, second, third⟩ := bind_run_eq_ok rest
  have steps : ReflTransGen (Justified False) s s₁ := (csMethod_justified .empty m).ok first
  have steps' : ReflTransGen (Justified False) s₂ s' := (addReachable_justified entry).ok third
  obtain ⟨known, -, -⟩ := csMethod_run_eq_ok first
  have entered₂ : s₂.Entered (addNew l m) := by
    cases second
    exact (entered.justified steps).addEntry (fetch_eq_ok_iff.2 known)
  exact entered₂.justified steps'

theorem forM_enter_entered (entries : List MethodId) (entered : s.Entered l)
    (run : entries.forM enter s = .ok () s') : s'.Entered (entries.foldl addNew l) := by
  induction entries generalizing s l with
  | nil =>
    cases run
    exact entered
  | cons m entries ih =>
    obtain ⟨⟨⟩, s₁, first, rest⟩ := bind_run_eq_ok run
    exact ih (enter_entered entered first) rest

/-- A run that succeeds has entered the entries of the program. -/
theorem solve_entered (run : solve (.initial P) = .ok () s') :
    s'.Entered (distinct P.program.entries) := by
  obtain ⟨⟨⟩, s₁, started, rest⟩ := bind_run_eq_ok run
  obtain ⟨⟨⟩, s₂, stepped, recorded⟩ := bind_run_eq_ok rest
  have entered₁ : s₁.Entered (distinct P.program.entries) := by
    obtain ⟨s₀, s₀', got, begun⟩ := bind_run_eq_ok started
    cases got
    rw [if_neg (by simp [SolverState.initial])] at begun
    split at begun
    · cases begun
    · obtain ⟨⟨⟩, s₂, marked, entering⟩ := bind_run_eq_ok begun
      refine forM_enter_entered P.program.entries ?_ entering
      have entered : (SolverState.initial P).Entered [] := SolverState.entered_initial
      cases marked
      exact entered
  have steps : ReflTransGen (Justified False) s₁ s₂ := (stepAll_justified P.limit).ok stepped
  exact entered₁.justified (steps.trans (recordSizes_justified.ok recorded))

end Solve

end PointsTo
