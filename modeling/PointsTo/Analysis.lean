import PointsTo.Config.Basic
import PointsTo.Result.Summary

/-!
# Analyses of programs

From a configuration and a program to a problem, and on to its result and summary. A configuration
has to pass `Config.check` before it is used; `ConfigError.refusal` is what is said about one that
does not.
-/

namespace PointsTo

/-- The message about a configuration that an analysis refuses. -/
def ConfigError.refusal (e : ConfigError) : String :=
  "Configuration error: " ++ e.message

namespace Config

/-- The problem of analysing a program under a configuration. -/
def problem (c : Config) (model : HeapModel) (h : Hierarchy) : Problem :=
  .ofHierarchy h c.strategy c.heapDepth model

/-- The summary of the analysis of a program, with one object for each allocation statement. -/
def summarize (c : Config) (p : Program) : Except Stop Summary := do
  let h ← Hierarchy.ofProgram p
  let result ← (c.problem .bySite h).analyze c.collectStats
  result.summary

end Config

end PointsTo
