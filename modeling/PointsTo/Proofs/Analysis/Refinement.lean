import PointsTo.Proofs.Analysis.Solution
import PointsTo.Proofs.Result.Containment

/-!
# Finer configurations

An analysis with finer contexts finds out less that cannot happen. It succeeds whenever one with
coarser contexts does, and its result is contained in the result of the coarser one.
-/

namespace PointsTo

open Inclusion

variable {p : Program}

namespace Config

variable {F G : Config}

/-- If the coarser analysis gives a result, the finer one gives a result within it. -/
theorem within_of_analyze (built : p.Built) (valid : G.check = .ok ())
    (refines : F.policy.Refines G.policy) :
    ∃ h, Hierarchy.ofProgram p = .ok h ∧ h.program = p ∧
      ∀ rG, (G.problem .bySite h).analyze G.collectStats = .ok rG →
        ∃ rF, (F.problem .bySite h).analyze F.collectStats = .ok rF ∧ rF.Within rG := by
  obtain ⟨h, hierarchy, same⟩ := Hierarchy.exists_ofProgram built.wellFormed.toChecked
  refine ⟨h, hierarchy, same, fun rG done => ?_⟩
  have finer := F.problem_regular built hierarchy
  have coarser := G.problem_regular built hierarchy
  obtain ⟨A⟩ := exists_abstraction h refines (valid_policy valid)
  obtain ⟨entries, fit⟩ := Problem.fit_of_analyze coarser done
  obtain ⟨s, run⟩ := Problem.exists_solve_eq_ok finer entries fun bad => fit (A.badCall bad)
  obtain ⟨rF, done', complete⟩ := Problem.exists_analyze finer F.collectStats run
  have complete' := Problem.complete_of_analyze coarser done
  exact ⟨rF, done', Result.within_of_abstraction A finer.toLawful coarser.toLawful complete
    complete' rfl⟩

theorem within_of_analyze_identityCall : identityCall.Built ∧
    Preset.fast.config.check = .ok () ∧ default.policy.Refines Preset.fast.config.policy ∧
    ∃ h rG rF, Hierarchy.ofProgram identityCall = .ok h ∧
      (Preset.fast.config.problem .bySite h).analyze false = .ok rG ∧
      (default.problem .bySite h).analyze true = .ok rF ∧ rF.Within rG := by
  have valid : Preset.fast.config.check = .ok () := rfl
  have refines : default.policy.Refines Preset.fast.config.policy := .insensitive
  obtain ⟨h, hierarchy, -, within⟩ := within_of_analyze built_identityCall valid refines
  have succeeds : (match Hierarchy.ofProgram identityCall with
      | .error _ => false
      | .ok h => ((Preset.fast.config.problem .bySite h).analyze false).isOk) = true := by
    decide +kernel
  rw [hierarchy] at succeeds
  cases done : (Preset.fast.config.problem .bySite h).analyze false with
  | error e =>
    simp only [done] at succeeds
    cases succeeds
  | ok rG =>
    obtain ⟨rF, done', contained⟩ := within rG done
    exact ⟨built_identityCall, valid, refines, h, rG, rF, hierarchy, done, done', contained⟩

end Config

end PointsTo
