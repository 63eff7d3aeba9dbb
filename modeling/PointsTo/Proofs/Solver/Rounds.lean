import Mathlib.Tactic.Ring
import PointsTo.Proofs.Solver.Running
import PointsTo.Proofs.Solver.Volume

/-!
# Analyses end

How large the tables of an analysis can become. All elements of contexts name something in the
program, contexts are not longer than the policy says, and everything else is told apart by a
context and a few references to the program. So the credit of a run is bounded, and its loops end
before they run out of rounds.
-/

namespace PointsTo

open Inclusion

/-! ## Sizes of programs -/

namespace Program

variable {p : Program}

/-- The positions of all statements. -/
def sites (p : Program) : List AllocSite :=
  p.methods.toList.zipIdx.flatMap fun (method, i) =>
    (List.range method.body.size).map fun position => ⟨⟨i⟩, position⟩

theorem mem_sites {site : AllocSite} {a : Allocation} (allocates : p.allocation? site = some a) :
    site ∈ p.sites := by
  obtain ⟨-, lhs, -, stands, -⟩ := allocation?_eq_some_iff.1 allocates
  obtain ⟨method, declared, listed⟩ := stmt?_eq_some_iff.1 stands
  have inside := (Array.getElem?_eq_some_iff.1 listed).1
  have listed : p.methods.toList[site.method.index]? = some method := by
    rw [Array.getElem?_toList]
    exact declared
  refine List.mem_flatMap.2 ⟨(method, site.method.index), List.mem_zipIdx_iff_getElem?.2 listed, ?_⟩
  exact List.mem_map.2 ⟨site.position, List.mem_range.2 inside, rfl⟩

/-- The number of statements. -/
def weight (p : Program) : Nat :=
  (p.methods.toList.map fun m => m.body.size).sum

theorem length_sites (p : Program) : p.sites.length = p.weight := by
  have methods := List.zipIdx_map_fst 0 p.methods.toList
  rw [sites, weight, List.length_flatMap]
  simp only [List.length_map, List.length_range]
  conv_rhs => rw [← methods, List.map_map]
  rfl

theorem size_eq (p : Program) : p.size = p.classes.size + p.fields.size + p.methods.size +
    p.vars.size + p.invokes.size + p.weight := by
  have fold : ∀ (l : List Method) (n : Nat), l.foldl (fun n m => n + m.body.size) n =
      n + (l.map fun m => m.body.size).sum := by
    intro l
    induction l with
    | nil => simp
    | cons m l ih =>
      intro n
      rw [List.foldl_cons, ih, List.map_cons, List.sum_cons, Nat.add_assoc]
  rw [size, weight, ← Array.foldl_toList, fold, Nat.zero_add]

theorem length_stmts (p : Program) : p.stmts.length = p.weight := by
  rw [stmts, weight, List.length_flatMap]
  simp only [Array.length_toList]

theorem size_body_le_weight {m : MethodId} {method : Method}
    (declared : p.methods[m.index]? = some method) : method.body.size ≤ p.weight := by
  have mem : method ∈ p.methods.toList := Array.mem_toList_iff.2 (Array.mem_of_getElem? declared)
  exact le_sum_map_of_mem (f := fun m : Method => m.body.size) mem

/-- The size of a program bounds its bodies and the calls on its variables. -/
theorem WellFormed.fits (wf : p.WellFormed) : p.Fits p.size where
  bodies found := by
    have body := size_body_le_weight (fetch_eq_ok_iff.1 found)
    rw [size_eq]
    omega
  calls found := by
    have calls := wf.invokes _ _ (fetch_eq_ok_iff.1 found)
    rw [length_stmts] at calls
    rw [size_eq]
    omega

end Program

variable {P : Problem} {q : Policy}

/-- More than there are entities of any kind in the program. -/
def Problem.scale (P : Problem) : Nat :=
  P.program.size + 2

namespace SolverState

variable {s : SolverState P}

/-! ## Sizes of tables -/

/-- What the elements of contexts can be. -/
def alphabet (s : SolverState P) : List ContextElement :=
  (List.range P.program.invokes.size).map (fun i => .callSite ⟨i⟩) ++
    (List.range s.objects.size).map (fun i => .object ⟨i⟩) ++
    (List.range P.program.classes.size).map fun i => .type ⟨i⟩

theorem Names.mem_alphabet {e : ContextElement} (names : s.Names e) : e ∈ s.alphabet := by
  rw [alphabet, List.mem_append, List.mem_append]
  cases e with
  | callSite i =>
    exact Or.inl (Or.inl (List.mem_map.2 ⟨i.index, List.mem_range.2 names, rfl⟩))
  | object o =>
    exact Or.inl (Or.inr (List.mem_map.2 ⟨o.index, List.mem_range.2 names, rfl⟩))
  | type c => exact Or.inr (List.mem_map.2 ⟨c.index, List.mem_range.2 names, rfl⟩)

theorem length_alphabet (s : SolverState P) : s.alphabet.length =
    P.program.invokes.size + s.objects.size + P.program.classes.size := by
  simp only [alphabet, List.length_append, List.length_map, List.length_range]

section Sizes

variable (lawful : P.Lawful q) (grounded : s.Grounded q)
include lawful grounded

/-- There is at most one object for each statement. -/
theorem size_objects_le : s.objects.size ≤ P.program.weight := by
  have distinct := grounded.distinctSites lawful
  have nodup : (s.objects.toList.map Obj.site).Nodup := by
    rw [List.nodup_iff_pairwise_ne, List.pairwise_iff_getElem]
    intro i j hi hj less same
    simp only [List.getElem_map, Array.getElem_toList] at same
    rw [List.length_map, Array.length_toList] at hi hj
    exact Nat.ne_of_lt less (distinct i j _ _ (Array.getElem?_eq_getElem hi)
      (Array.getElem?_eq_getElem hj) same)
  have listed : s.objects.toList.map Obj.site ⊆ P.program.sites := by
    intro site mem
    obtain ⟨obj, hobj, rfl⟩ := List.mem_map.1 mem
    obtain ⟨i, found⟩ := Array.mem_iff_getElem?.1 (Array.mem_toList_iff.1 hobj)
    exact Program.mem_sites (lawful.heap.allocated grounded.heap found).2
  have length := nodup.length_le_of_subset listed
  rw [List.length_map, Array.length_toList, Program.length_sites] at length
  exact length

theorem size_objects_lt : s.objects.size < P.scale := by
  have objects := size_objects_le lawful grounded
  rw [Problem.scale, Program.size_eq]
  omega

theorem size_contexts_le : s.contexts.size ≤ P.scale ^ q.strategy.depth := by
  have objects := size_objects_le lawful grounded
  have contexts := length_le_of_sequences (Table.nodup_toList s.contexts.table)
    (fun ctx mem => (grounded.contexts ctx mem).1)
    fun ctx mem e he => ((grounded.contexts ctx mem).2.1 e he).mem_alphabet
  rw [Table.length_toList, length_alphabet] at contexts
  refine Nat.le_trans contexts (Nat.pow_le_pow_left ?_ _)
  rw [Problem.scale, Program.size_eq]
  omega

omit lawful grounded in
theorem context_lt_of_trail? {c : ContextId} {t : Trail} (read : s.trail? c = some t) :
    c.index < s.contexts.size := by
  obtain ⟨ctx, known, -⟩ := trail?_eq_some_iff.1 read
  exact Table.lt_size_of_get? known

/-- Entries that are told apart by a context and a reference to the program. -/
theorem size_le_of_pairs {κ : Type} [Keyed κ] {t : Table κ} (f : κ → Nat × Nat)
    (injective : ∀ {a b}, f a = f b → a = b) (first : ∀ a ∈ t.toList, (f a).1 < s.contexts.size)
    (second : ∀ a ∈ t.toList, (f a).2 < P.scale) : t.size ≤ P.scale ^ (q.strategy.depth + 1) := by
  have contexts := size_contexts_le lawful grounded
  have pairs := length_le_of_pairs (Table.nodup_toList t) injective first second
  rw [Table.length_toList] at pairs
  rw [Nat.pow_succ]
  exact Nat.le_trans pairs (Nat.mul_le_mul_right _ contexts)

theorem size_csObjects_le : s.elements.objects.size ≤ P.scale ^ (q.strategy.depth + 1) := by
  refine size_le_of_pairs lawful grounded (fun x => (x.context.index, x.obj.index)) ?_ ?_ ?_
  · rintro ⟨⟨c⟩, ⟨o⟩⟩ ⟨⟨c'⟩, ⟨o'⟩⟩ same
    simpa using same
  · intro x mem
    obtain ⟨t, obj, read, -⟩ := grounded.csObjects x mem
    exact context_lt_of_trail? read
  · intro x mem
    obtain ⟨t, obj, -, found, -⟩ := grounded.csObjects x mem
    have inside := (Array.getElem?_eq_some_iff.1 found).1
    exact Nat.lt_trans inside (size_objects_lt lawful grounded)

theorem size_csMethods_le : s.elements.methods.size ≤ P.scale ^ (q.strategy.depth + 1) := by
  refine size_le_of_pairs lawful grounded (fun x => (x.context.index, x.method.index)) ?_ ?_ ?_
  · rintro ⟨⟨c⟩, ⟨m⟩⟩ ⟨⟨c'⟩, ⟨m'⟩⟩ same
    simpa using same
  · intro x mem
    obtain ⟨t, read, -⟩ := grounded.methods x mem
    exact context_lt_of_trail? read
  · intro x mem
    obtain ⟨t, -, derived⟩ := grounded.methods x mem
    obtain ⟨method, declared⟩ := Problem.exists_method_of_reachable lawful.program derived
    have inside := (Array.getElem?_eq_some_iff.1 declared).1
    rw [Problem.scale, Program.size_eq]
    omega

/-- All reachable methods are interned. -/
theorem size_reachable_le : s.callGraph.reachable.size ≤ P.scale ^ (q.strategy.depth + 1) := by
  have interned : ∀ m ∈ s.callGraph.reachable.toList, m.index < s.elements.methods.size := by
    intro m mem
    obtain ⟨a, read, -⟩ := grounded.reachable m mem
    obtain ⟨c, known, -⟩ := activation?_eq_some_iff.1 read
    exact Table.lt_size_of_get? known
  have length := length_le_of_ids (Table.nodup_toList _) interned
  rw [Table.length_toList] at length
  exact Nat.le_trans length (size_csMethods_le lawful grounded)

end Sizes

/-- A location as a pair of numbers: a context or an object with the kind of the location, and a
variable or a field. -/
def cell : PointerKey → Nat × Nat
  | .var c v => (4 * c.index, v.index)
  | .staticField f => (1, f.index)
  | .instanceField x f => (4 * x.index + 2, f.index)
  | .arrayIndex x => (4 * x.index + 3, 0)

theorem cell_injective {k k' : PointerKey} (same : cell k = cell k') : k = k' := by
  rcases k with ⟨⟨_⟩, ⟨_⟩⟩ | ⟨⟨_⟩⟩ | ⟨⟨_⟩, ⟨_⟩⟩ | ⟨⟨_⟩⟩ <;>
    rcases k' with ⟨⟨_⟩, ⟨_⟩⟩ | ⟨⟨_⟩⟩ | ⟨⟨_⟩, ⟨_⟩⟩ | ⟨⟨_⟩⟩ <;>
    simp only [cell, Prod.mk.injEq] at same <;> grind

section Sizes

variable (lawful : P.Lawful q) (grounded : s.Grounded q)
include lawful grounded

omit lawful grounded in
theorem object_lt_of_heapObj? {x : CsObjId} {o : HeapObj} (read : s.heapObj? x = some o) :
    x.index < s.elements.objects.size := by
  obtain ⟨cs, obj, known, -⟩ := heapObj?_eq_some_iff.1 read
  exact Table.lt_size_of_get? known

theorem cell_lt {k : PointerKey} (mem : k ∈ s.elements.pointers.toList) :
    (cell k).1 < 4 * P.scale ^ (q.strategy.depth + 1) ∧ (cell k).2 < P.scale := by
  obtain ⟨l, read, met⟩ := grounded.pointers k mem
  have place := Problem.place_of_met lawful.program met
  have pos : 0 < P.scale := Nat.succ_pos _
  have power : 1 ≤ P.scale ^ (q.strategy.depth + 1) := Nat.one_le_pow _ _ pos
  have wider : P.scale ^ q.strategy.depth ≤ P.scale ^ (q.strategy.depth + 1) :=
    Nat.pow_le_pow_right pos (Nat.le_succ _)
  have contexts := size_contexts_le lawful grounded
  have csObjects := size_csObjects_le lawful grounded
  have size := Program.size_eq P.program
  have scale : P.scale = P.program.size + 2 := rfl
  cases k with
  | var c v =>
    obtain ⟨t, trail, rfl⟩ := Option.map_eq_some_iff.1 read
    obtain ⟨var, declared, -⟩ := place
    have context := context_lt_of_trail? trail
    have inside := (Array.getElem?_eq_some_iff.1 declared).1
    constructor <;> simp only [cell] <;> omega
  | staticField f =>
    obtain rfl := Option.some.inj read
    have inside : f.index < P.program.fields.size := place
    constructor <;> simp only [cell] <;> omega
  | instanceField x f =>
    obtain ⟨o, base, rfl⟩ := Option.map_eq_some_iff.1 read
    have inside : f.index < P.program.fields.size := place
    have object := object_lt_of_heapObj? base
    constructor <;> simp only [cell] <;> omega
  | arrayIndex x =>
    obtain ⟨o, base, rfl⟩ := Option.map_eq_some_iff.1 read
    have object := object_lt_of_heapObj? base
    constructor <;> simp only [cell] <;> omega

theorem size_pointers_le : s.elements.pointers.size ≤ P.scale ^ (q.strategy.depth + 4) := by
  have pairs := length_le_of_pairs (Table.nodup_toList s.elements.pointers) cell_injective
    (fun k mem => (cell_lt lawful grounded mem).1) fun k mem => (cell_lt lawful grounded mem).2
  have four : 4 ≤ P.scale ^ 2 := Nat.pow_le_pow_left (Nat.le_add_left 2 _) 2
  rw [Table.length_toList] at pairs
  refine Nat.le_trans pairs ?_
  calc 4 * P.scale ^ (q.strategy.depth + 1) * P.scale
      ≤ P.scale ^ 2 * P.scale ^ (q.strategy.depth + 1) * P.scale :=
        Nat.mul_le_mul_right _ (Nat.mul_le_mul_right _ four)
    _ = P.scale ^ (q.strategy.depth + 4) := by ring

theorem size_flow_le : s.flow.size ≤ P.scale ^ (2 * q.strategy.depth + 8) := by
  have pointers := size_pointers_le lawful grounded
  have pairs := length_le_of_pairs (Table.nodup_toList s.flow.edges)
    (f := fun e => (e.source.index, e.target.index)) (m := s.elements.pointers.size)
    (n := s.elements.pointers.size) ?_ ?_ ?_
  · rw [Table.length_toList] at pairs
    calc s.flow.size ≤ s.elements.pointers.size * s.elements.pointers.size := pairs
      _ ≤ P.scale ^ (q.strategy.depth + 4) * P.scale ^ (q.strategy.depth + 4) :=
        Nat.mul_le_mul pointers pointers
      _ = P.scale ^ (2 * q.strategy.depth + 8) := by ring
  · rintro ⟨⟨p⟩, ⟨t⟩⟩ ⟨⟨p'⟩, ⟨t'⟩⟩ same
    simpa using same
  · intro e mem
    obtain ⟨l, l', source, -⟩ := grounded.flow e mem
    obtain ⟨k, known, -⟩ := locationAt?_eq_some_iff.1 source
    exact Table.lt_size_of_get? known
  · intro e mem
    obtain ⟨l, l', -, target, -⟩ := grounded.flow e mem
    obtain ⟨k, known, -⟩ := locationAt?_eq_some_iff.1 target
    exact Table.lt_size_of_get? known

/-- Points-to sets have interned objects only. -/
theorem volume_le : s.elements.volume ≤ P.scale ^ (2 * q.strategy.depth + 5) := by
  have sets : ∀ set ∈ s.elements.pointsTo.toList, set.size ≤ s.elements.objects.size := by
    intro set mem
    obtain ⟨i, found⟩ := Array.mem_iff_getElem?.1 (Array.mem_toList_iff.1 mem)
    have interned : ∀ x ∈ set.toList, x.index < s.elements.objects.size := by
      intro x hx
      obtain ⟨l, o, -, object, -⟩ := grounded.sent ⟨i⟩ x (Or.inl ⟨set, found, hx⟩)
      exact object_lt_of_heapObj? object
    exact length_le_of_ids set.nodup_toList interned
  have volume := sum_map_le sets
  rw [Array.length_toList, s.elements.pointsTo_size] at volume
  calc s.elements.volume ≤ s.elements.pointers.size * s.elements.objects.size := volume
    _ ≤ P.scale ^ (q.strategy.depth + 4) * P.scale ^ (q.strategy.depth + 1) :=
      Nat.mul_le_mul (size_pointers_le lawful grounded) (size_csObjects_le lawful grounded)
    _ = P.scale ^ (2 * q.strategy.depth + 5) := by ring

/-! ## Rounds -/

theorem credit_lt (counted : s.Counted) :
    s.credit P.program.size < P.scale ^ (4 * q.strategy.depth + 16) := by
  have bound : P.program.size ≤ P.scale := Nat.le_add_right _ 2
  have pos : 0 < P.scale := Nat.succ_pos _
  have flow := size_flow_le lawful grounded
  have reach := size_reachable_le lawful grounded
  have volume := volume_le lawful grounded
  rw [← counted] at volume
  -- the largest part: every flow edge carries every propagated object
  have edges : (P.program.size + s.flow.size) * s.stats.propagations ≤
      2 * P.scale ^ (4 * q.strategy.depth + 13) := by
    have wider : P.scale ≤ P.scale ^ (2 * q.strategy.depth + 8) := Nat.le_self_pow (by omega) _
    calc (P.program.size + s.flow.size) * s.stats.propagations
        ≤ (2 * P.scale ^ (2 * q.strategy.depth + 8)) * P.scale ^ (2 * q.strategy.depth + 5) :=
          Nat.mul_le_mul (by omega) volume
      _ = 2 * P.scale ^ (4 * q.strategy.depth + 13) := by ring
  have methods : P.program.size * s.callGraph.reachable.size ≤
      P.scale ^ (4 * q.strategy.depth + 13) := by
    calc P.program.size * s.callGraph.reachable.size
        ≤ P.scale * P.scale ^ (q.strategy.depth + 1) := Nat.mul_le_mul bound reach
      _ = P.scale ^ (q.strategy.depth + 2) := by ring
      _ ≤ P.scale ^ (4 * q.strategy.depth + 13) := Nat.pow_le_pow_right pos (by omega)
  have single : s.flow.size ≤ P.scale ^ (4 * q.strategy.depth + 13) :=
    Nat.le_trans flow (Nat.pow_le_pow_right pos (by omega))
  have four : 4 ≤ P.scale ^ 2 := Nat.pow_le_pow_left (Nat.le_add_left 2 _) 2
  have more : P.scale ^ (4 * q.strategy.depth + 15) < P.scale ^ (4 * q.strategy.depth + 16) :=
    Nat.pow_lt_pow_right (Nat.le_add_left 2 _) (Nat.lt_succ_self _)
  calc s.credit P.program.size
      ≤ 4 * P.scale ^ (4 * q.strategy.depth + 13) := by
        rw [credit]
        omega
    _ ≤ P.scale ^ 2 * P.scale ^ (4 * q.strategy.depth + 13) := Nat.mul_le_mul_right _ four
    _ = P.scale ^ (4 * q.strategy.depth + 15) := by ring
    _ < P.scale ^ (4 * q.strategy.depth + 16) := more

/-- No loop has had all its rounds in a state that a run from the start leads to. -/
theorem not_spent (limit : roundLimit P.program.size q.strategy.depth ≤ P.limit)
    (moved : (initial P).Moved P.program.size 0 s) : ¬s.Spent P.program.size := by
  have credit := credit_lt lawful grounded (counted_of_changes moved.changes counted_initial)
  have rounds : P.scale ^ (4 * q.strategy.depth + 16) ≤ P.limit :=
    Nat.le_trans (Nat.le_add_left _ wordLimit) limit
  have cost := moved.cost FlowGraph.indexed_empty
  have start : (initial P).load = 0 := rfl
  have iterations : s.stats.iterations ≤ s.load := Nat.le_add_right _ _
  have methods : P.program.size * s.callGraph.reachable.size ≤ s.credit P.program.size := by
    rw [SolverState.credit]
    omega
  rintro (earned | processed) <;> omega

end Sizes

end SolverState

end PointsTo
