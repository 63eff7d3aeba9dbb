import PointsTo.Proofs.Analysis.Solution
import PointsTo.Proofs.Result.Agreement

/-!
# Independence of order

The order of the statements in a body settles which identifiers an analysis gives, in which order it
visits methods and which objects it delivers first. What it finds out in the end does not depend on
any of this, and neither does the number of contexts, objects, locations and flow edges that it has
made on the way.
-/

namespace PointsTo

open Inclusion

variable {p p' : Program}

/-! ## A program in two orders -/

/-- A main method allocates an object, hands it to a method and stores it in a static field, which
another entry reads. -/
def handOver (order : List Declaration) : Program :=
  (Program.ofDeclarations? ([
    .addClass "A" none false,
    .addField ⟨0⟩ "held" true,
    .addMethod ⟨0⟩ ⟨"void main()"⟩ true [],
    .addMethod ⟨0⟩ ⟨"A take(A)"⟩ false ["x"],
    .addMethod ⟨0⟩ ⟨"void other()"⟩ true [],
    .var ⟨0⟩ "a",
    .var ⟨0⟩ "b",
    .var ⟨2⟩ "c",
    .addStmt ⟨1⟩ (.ret (some ⟨1⟩)),
    .addStmt ⟨2⟩ (.loadField ⟨4⟩ (.global ⟨0⟩))] ++ order)).getD .empty

/-- The allocation comes first. -/
def allocateFirst : List Declaration :=
  [.addEntry ⟨0⟩,
    .addEntry ⟨2⟩,
    .addStmt ⟨0⟩ (.new ⟨2⟩ (.ref ⟨0⟩)),
    .addStmt ⟨0⟩ (.storeField (.global ⟨0⟩) ⟨2⟩),
    .addInvoke ⟨0⟩ .virtual ⟨⟨0⟩, ⟨"A take(A)"⟩⟩ (some ⟨2⟩) [⟨2⟩] (some ⟨3⟩)]

/-- The allocation comes last. -/
def allocateLast : List Declaration :=
  [.addEntry ⟨2⟩,
    .addEntry ⟨0⟩,
    .addInvoke ⟨0⟩ .virtual ⟨⟨0⟩, ⟨"A take(A)"⟩⟩ (some ⟨2⟩) [⟨2⟩] (some ⟨3⟩),
    .addStmt ⟨0⟩ (.storeField (.global ⟨0⟩) ⟨2⟩),
    .addStmt ⟨0⟩ (.new ⟨2⟩ (.ref ⟨0⟩))]

theorem built_allocateFirst : (handOver allocateFirst).Built :=
  Program.built_of_ofDeclarations? (by decide +kernel)

theorem built_allocateLast : (handOver allocateLast).Built :=
  Program.built_of_ofDeclarations? (by decide +kernel)

/-- Statements stand at small positions of the first methods only. -/
theorem Program.stmt?_eq_none {n k : Nat} (methods : p.methods.size ≤ n)
    (bodies : ∀ method ∈ p.methods.toList, method.body.size ≤ k) {m : MethodId} {i : Nat}
    (outside : n ≤ m.index ∨ k ≤ i) : p.stmt? m i = none := by
  refine Option.eq_none_iff_forall_ne_some.2 fun s stands => ?_
  obtain ⟨method, declared, listed⟩ := stmt?_eq_some_iff.1 stands
  have declared_ := (Array.getElem?_eq_some_iff.1 declared).1
  have listed_ := (Array.getElem?_eq_some_iff.1 listed).1
  have short := bodies method (Array.mem_toList_iff.2 (Array.mem_of_getElem? declared))
  omega

/-- The two orders of the main method are mirror images. -/
def mirror : (handOver allocateFirst).Reordering (handOver allocateLast) where
  position m := if m = ⟨0⟩ then Equiv.swap 0 2 else Equiv.refl Nat
  stmts m i := by
    by_cases inside : m.index < 3 ∧ i < 3
    · have all : ∀ m < 3, ∀ i < 3, (handOver allocateLast).stmt? ⟨m⟩
          ((if (⟨m⟩ : MethodId) = ⟨0⟩ then Equiv.swap 0 2 else Equiv.refl Nat) i) =
            (handOver allocateFirst).stmt? ⟨m⟩ i := by decide +kernel
      exact all m.index inside.1 i inside.2
    · -- the permutation keeps positions outside the bodies outside
      have outside : 3 ≤ m.index ∨ 3 ≤ i := by omega
      have moved : 3 ≤ m.index ∨
          3 ≤ (if m = ⟨0⟩ then Equiv.swap 0 2 else Equiv.refl Nat) i := by
        refine outside.imp_right fun large => ?_
        split
        · rw [Equiv.swap_apply_of_ne_of_ne (by omega) (by omega)]
          exact large
        · exact large
      rw [Program.stmt?_eq_none (by decide +kernel) (by decide +kernel) outside,
        Program.stmt?_eq_none (by decide +kernel) (by decide +kernel) moved]
  classes := by decide +kernel
  fields := by decide +kernel
  methods := by decide +kernel
  vars := by decide +kernel
  invokes := by decide +kernel
  entries := by decide +kernel
  objectClass := by decide +kernel

namespace Config

/-- Two programs that differ in the order of the statements of each body and of the entries are
analysed with the same outcome: either both analyses succeed or neither does. If they do, they agree
on what each variable, static field, instance field and array may hold, with allocations matched
through the permutation, on the methods that can run and the calls that can be made, and on the
numbers of contexts, locations, objects and flow edges. -/
theorem agrees_of_reordering (c : Config) (built : p.Built) (built' : p'.Built)
    (σ : p.Reordering p') :
    ∃ h h', Hierarchy.ofProgram p = .ok h ∧ h.program = p ∧
      Hierarchy.ofProgram p' = .ok h' ∧ h'.program = p' ∧
      ((∃ r, (c.problem .bySite h).analyze c.collectStats = .ok r) ↔
        ∃ r', (c.problem .bySite h').analyze c.collectStats = .ok r') ∧
      ∀ r r', (c.problem .bySite h).analyze c.collectStats = .ok r →
        (c.problem .bySite h').analyze c.collectStats = .ok r' → r.Agrees σ.site r' := by
  obtain ⟨h, hierarchy, same⟩ := Hierarchy.exists_ofProgram built.wellFormed.toChecked
  obtain ⟨h', hierarchy', same'⟩ := Hierarchy.exists_ofProgram built'.wellFormed.toChecked
  have regular := c.problem_regular built hierarchy
  have regular' := c.problem_regular built' hierarchy'
  have wf : h.program.WellFormed := regular.program
  have wf' : h'.program.WellFormed := regular'.program
  refine ⟨h, h', hierarchy, same, hierarchy', same', ?_, fun r r' done done' => ?_⟩
  · have entries : h.program.entries = [] ↔ h'.program.entries = [] := by
      rw [same, same']
      exact σ.entries_eq_nil_iff
    have badCall := σ.badCall_iff wf wf' same same' c.policy
    rw [Problem.exists_analyze_iff regular, Problem.exists_analyze_iff regular']
    exact and_congr (not_congr entries) (not_congr badCall)
  · have complete := Problem.complete_of_analyze regular done
    have complete' := Problem.complete_of_analyze regular' done'
    exact Result.agrees_of_simulations regular.toLawful regular'.toLawful complete complete'
      (σ.faithful wf wf' same same' c.policy) (σ.symm.faithful wf' wf same' same c.policy)
      σ.symm_site_site σ.site_symm_site

theorem agrees_of_reordering_handOver : (handOver allocateFirst).Built ∧
    (handOver allocateLast).Built ∧ mirror.site ⟨⟨0⟩, 0⟩ = ⟨⟨0⟩, 2⟩ ∧
    ∃ h h' r r', Hierarchy.ofProgram (handOver allocateFirst) = .ok h ∧
      Hierarchy.ofProgram (handOver allocateLast) = .ok h' ∧
      (default.problem .bySite h).analyze default.collectStats = .ok r ∧
      (default.problem .bySite h').analyze default.collectStats = .ok r' ∧
      r.Agrees mirror.site r' := by
  obtain ⟨h, h', hierarchy, -, hierarchy', -, succeeds, agrees⟩ :=
    agrees_of_reordering default built_allocateFirst built_allocateLast mirror
  obtain ⟨r, done⟩ := exists_analyze_of_summarize (c := default) hierarchy (by decide +kernel)
  obtain ⟨r', done'⟩ := succeeds.1 ⟨r, done⟩
  exact ⟨built_allocateFirst, built_allocateLast, by decide +kernel, h, h', r, r', hierarchy,
    hierarchy', done, done', agrees r r' done done'⟩

end Config

end PointsTo
