import PointsTo.Proofs.Analysis.Solution
import PointsTo.Proofs.Hierarchy.Walks

/-!
# Analyses end

From every state that calls of the operations lead to, each operation comes to an end: the stack of
methods to visit runs empty, and so does the worklist after finitely many steps. The bound on the
rounds of a loop is never reached. Walks along supertypes end as well, as no class is above itself.
-/

namespace PointsTo

open Inclusion

variable {P : Problem} {q : Policy}

namespace Solve

/-- An operation comes to an end: it gives a result or reports a failure, and stops neither for want
of rounds nor at a reference out of range. -/
def Ends {α : Type} (x : Solve P α) (s : SolverState P) : Prop :=
  (∃ a s', x s = .ok a s') ∨ ∃ e s', x s = .error (.failed e) s'

theorem ends_of_excused {α : Type} {s : SolverState P} {x : Solve P α}
    (excused : ∀ e s', x s = .error e s' → e ≠ .outOfRounds ∧ P.Excuses q e) : Ends x s := by
  cases run : x s with
  | ok a s' => exact Or.inl ⟨a, s', run⟩
  | error e s' =>
    obtain ⟨rounds, excused⟩ := excused e s' run
    cases e with
    | failed e => exact Or.inr ⟨e, s', run⟩
    | outOfRange r => exact False.elim excused
    | outOfRounds => exact absurd rfl rounds

end Solve

namespace SolverState

variable (regular : P.Regular q) {s : SolverState P}
include regular

/-- Every operation comes to an end from every state that calls lead to. -/
theorem Reached.ends (reached : s.Reached) :
    Solve.Ends Solve.start s ∧ Solve.Ends Solve.step s ∧ Solve.Ends Solve.solve s := by
  have excused {e : Stop} (stops : s.Stops e) := reached.excused regular stops
  exact ⟨Solve.ends_of_excused fun _ s' run => excused ⟨s', Or.inl run⟩,
    Solve.ends_of_excused fun _ s' run => excused ⟨s', Or.inr (Or.inl run)⟩,
    Solve.ends_of_excused fun _ s' run => excused ⟨s', Or.inr (Or.inr run)⟩⟩

/-- In no state have as many propagations been processed as a loop has rounds. -/
theorem Reached.iterations_lt (reached : s.Reached) : s.stats.iterations < P.limit := by
  obtain ⟨grounded, moved⟩ := reached.grounded_moved regular.toLawful
  by_contra processed
  have spent : s.Spent P.program.size := Or.inr (Nat.le_of_not_lt processed)
  exact not_spent regular.toLawful grounded regular.rounds moved spent

/-- Each step that finds something to do is counted, so there are fewer such steps in a row than a
loop has rounds. -/
theorem Reached.steps_lt {run : Nat → SolverState P} {n : Nat} (reached : (run 0).Reached)
    (steps : ∀ i < n, Solve.step (run i) = .ok true (run (i + 1))) : n < P.limit := by
  have counted : ∀ i ≤ n, (run i).Reached ∧ i ≤ (run i).stats.iterations := by
    intro i inside
    induction i with
    | zero => exact ⟨reached, Nat.zero_le _⟩
    | succ i ih =>
      obtain ⟨before, count⟩ := ih (Nat.le_of_succ_le inside)
      have found := steps i inside
      have next := Solve.iterations_of_step regular.program.fits found
      exact ⟨.step before (Or.inl ⟨true, found⟩), by omega⟩
  obtain ⟨last, count⟩ := counted n (Nat.le_refl n)
  exact Nat.lt_of_le_of_lt count (last.iterations_lt regular)

end SolverState

/-! ## Analyses of built programs -/

/-- A program with recursion of every kind: methods that call themselves statically and on their own
receiver, variables that are copied in a circle, a field that leads back to its object, and a class
below two levels of interfaces. -/
def recursion : Program :=
  (Program.ofDeclarations? [
    .addInterface "Chained" [],
    .addInterface "Linked" [⟨0⟩],
    .addClass "Object" none false,
    .addClass "Node" (some ⟨2⟩) false,
    .addImplements ⟨3⟩ ⟨1⟩,
    .addField ⟨3⟩ "next" false,
    .addMethod ⟨3⟩ ⟨"void main()"⟩ true [],
    .addMethod ⟨3⟩ ⟨"Node last(Node)"⟩ false ["x"],
    .addEntry ⟨0⟩,
    .var ⟨0⟩ "a",
    .var ⟨0⟩ "b",
    .addStmt ⟨0⟩ (.new ⟨2⟩ (.ref ⟨3⟩)),
    .addStmt ⟨0⟩ (.storeField (.member ⟨2⟩ ⟨0⟩) ⟨2⟩),
    .addStmt ⟨0⟩ (.loadField ⟨3⟩ (.member ⟨2⟩ ⟨0⟩)),
    .addStmt ⟨0⟩ (.copy ⟨2⟩ ⟨3⟩),
    .addStmt ⟨0⟩ (.copy ⟨3⟩ ⟨3⟩),
    .addInvoke ⟨0⟩ .static ⟨⟨3⟩, ⟨"void main()"⟩⟩ none [] none,
    .addInvoke ⟨0⟩ .virtual ⟨⟨3⟩, ⟨"Node last(Node)"⟩⟩ (some ⟨2⟩) [⟨3⟩] (some ⟨2⟩),
    .addInvoke ⟨1⟩ .virtual ⟨⟨3⟩, ⟨"Node last(Node)"⟩⟩ (some ⟨1⟩) [⟨0⟩] (some ⟨1⟩),
    .addStmt ⟨1⟩ (.ret (some ⟨1⟩))]).getD .empty

theorem built_recursion : recursion.Built :=
  Program.built_of_ofDeclarations? (by decide +kernel)

namespace Config

variable {p : Program}

/-- From every state that calls of the operations lead to, each operation comes to an end, and only
so many steps in a row find something to do. For every class, resolution and dispatch come to an end:
the superclass chain is walked up to a class without a superclass, and the interfaces above the chain
are walked until none is waiting. -/
theorem ends_of_reached (c : Config) (built : p.Built) :
    ∃ h, Hierarchy.ofProgram p = .ok h ∧ h.program = p ∧
      (∀ s : SolverState (c.problem .bySite h), s.Reached →
        Solve.Ends Solve.start s ∧ Solve.Ends Solve.step s ∧ Solve.Ends Solve.solve s) ∧
      (∀ (run : Nat → SolverState (c.problem .bySite h)) (n : Nat), (run 0).Reached →
        (∀ i < n, Solve.step.run (run i) = .ok true (run (i + 1))) →
        n < roundLimit p.size c.strategy.depth) ∧
      ∀ k, k.index < p.classes.size →
        (∀ s, (∃ m, h.resolve ⟨k, s⟩ = .ok m) ∧ ∃ m, h.dispatch k s = .ok m) ∧
        ∃ chain seeds interfaces, h.chain k = .ok chain ∧ h.Chain k chain ∧
          h.chainInterfaces chain = .ok seeds ∧
          Table.Expands h.interfacesOf 0 (.ofList seeds) interfaces ∧
          ∀ s, h.dispatchDefault chain s = h.firstConcrete s interfaces.toList := by
  obtain ⟨h, hierarchy, same⟩ := Hierarchy.exists_ofProgram built.wellFormed.toChecked
  have regular := c.problem_regular built hierarchy
  have acyclic : h.program.Acyclic := same ▸ built.acyclic
  have wf : h.program.WellFormed := regular.program
  refine ⟨h, hierarchy, same, fun s reached => reached.ends regular, ?_, ?_⟩
  · intro run n reached steps
    have limit : (c.problem .bySite h).limit = roundLimit p.size c.strategy.depth := by
      rw [← same]
      rfl
    rw [← limit]
    exact reached.steps_lt regular steps
  · intro k declared
    rw [← same] at declared
    obtain ⟨chain, seeds, interfaces, found, walks⟩ := Hierarchy.exists_walks wf acyclic declared
    refine ⟨fun s => ⟨?_, ?_⟩, chain, seeds, interfaces, found, walks⟩
    · exact (Hierarchy.exists_resolve (r := ⟨k, s⟩) wf declared).imp fun _ => And.left
    · exact (Hierarchy.exists_dispatch wf declared s).imp fun _ => And.left

theorem ends_of_reached_recursion : recursion.Built ∧
    ∃ h, Hierarchy.ofProgram recursion = .ok h ∧
      Solve.Ends Solve.solve (.initial (Config.default.problem .bySite h)) ∧
      ∃ chain, h.chain ⟨3⟩ = .ok chain ∧ h.Chain ⟨3⟩ chain := by
  obtain ⟨h, hierarchy, -, ends, -, walks⟩ := ends_of_reached Config.default built_recursion
  obtain ⟨-, chain, seeds, interfaces, found, whole, -⟩ := walks ⟨3⟩ (by decide +kernel)
  exact ⟨built_recursion, h, hierarchy, (ends _ .initial).2.2, chain, found, whole⟩

end Config

end PointsTo
