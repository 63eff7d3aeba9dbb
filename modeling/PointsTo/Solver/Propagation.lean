import PointsTo.Solver.State

/-!
# Propagation

How objects move between locations. A new flow edge sends the objects that its source has already;
after that, only objects that are new to the source are sent along it. An object that is new to a
variable wires up the field and array accesses with that variable as their base.
-/

namespace PointsTo

namespace Solve

variable {P : Problem}

/-- Adds a flow edge, and says whether it is new. The objects of the source are scheduled for the
target of a new edge. -/
def addFlow (source target : PointerId) : Solve P Bool := do
  let (isNew, flow) := (← get).flow.addEdge ⟨source, target⟩
  if !isNew then return false
  modify fun s => { s with flow := flow }
  let objects ← (← get).elements.pointsToSet source
  if !objects.isEmpty then schedule target objects
  return true

/-- Adds objects to the set of a location and schedules the new ones for the targets of its flow
edges. Gives the new ones. -/
def propagate (p : PointerId) (objects : ObjectSet) : Solve P ObjectSet := do
  let (delta, grown) := (← (← get).elements.pointsToSet p).addAll objects
  if delta.isEmpty then return delta
  modify fun s => { s with
    elements := s.elements.setPointsTo p grown
    stats.propagations := s.stats.propagations + delta.size }
  ((← get).flow.targetsOf p).forM fun target => schedule target delta
  return delta

/-- Makes objects flow from one location to another, each made if it is new. -/
def flow (source target : PointerKey) : Solve P Unit := do
  let s ← pointer source
  let t ← pointer target
  let _ ← addFlow s t

/-- Wires the accesses with a variable as their base for an object that is new to it. -/
def processAccesses (c : ContextId) (v : VarId) (o : CsObjId) : Solve P Unit := do
  let uses := (← P.program.varAt v).uses
  uses.storeFields.forM fun (field, rhs) => flow (.var c rhs) (.instanceField o field)
  uses.loadFields.forM fun (field, lhs) => flow (.instanceField o field) (.var c lhs)
  uses.storeArrays.forM fun rhs => flow (.var c rhs) (.arrayIndex o)
  uses.loadArrays.forM fun lhs => flow (.arrayIndex o) (.var c lhs)

end Solve

end PointsTo
