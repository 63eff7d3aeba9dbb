import PointsTo.Analysis
import PointsTo.CallGraph.ByHierarchy
import PointsTo.CallGraph.Export
import PointsTo.Config.Document
import PointsTo.Element.Json
import PointsTo.Json.Printer
import PointsTo.Program.Check
import PointsTo.Proofs.Analysis.Accrual
import PointsTo.Proofs.Analysis.Contexts
import PointsTo.Proofs.Analysis.Export
import PointsTo.Proofs.Analysis.Failure
import PointsTo.Proofs.Analysis.Idempotence
import PointsTo.Proofs.Analysis.Integrity
import PointsTo.Proofs.Analysis.OverApproximation
import PointsTo.Proofs.Analysis.Reordering
import PointsTo.Proofs.Analysis.Safety
import PointsTo.Proofs.Analysis.Statistics
import PointsTo.Proofs.Analysis.Termination
import PointsTo.Proofs.CallGraph.Images
import PointsTo.Proofs.Context.Interning
import PointsTo.Proofs.Context.Strategy
import PointsTo.Proofs.Element.Interning
import PointsTo.Proofs.Hierarchy.Dispatch
import PointsTo.Proofs.Hierarchy.Subtypes
import PointsTo.Proofs.IdSet.Recipes
import PointsTo.Proofs.Program.Cycles
import PointsTo.Proofs.Program.Index
import PointsTo.Proofs.Result.Projection
