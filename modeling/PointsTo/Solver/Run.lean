import PointsTo.Solver.Calls

/-!
# Runs

An analysis starts by making the entries of the program reachable in the empty context. Each step
then carries out the pending propagation at the head of the worklist, and a run is over when the
worklist is empty.
-/

namespace PointsTo

namespace Solve

variable {P : Problem}

/-- Makes a method an entry of the call graph, and reachable, in the empty context. -/
def enter (m : MethodId) : Solve P Unit := do
  let entry ← csMethod .empty m
  modify fun s => { s with callGraph := s.callGraph.addEntry entry }
  addReachable entry

/-- Makes the entries of the program reachable. Does nothing when called again. -/
def start : Solve P Unit := do
  if (← get).initialized then return
  if P.program.entries.isEmpty then throw (.failed .noEntryMethod)
  modify fun s => { s with initialized := true }
  P.program.entries.forM enter

/-- Reacts to an object that is new to a variable. -/
def processObject (c : ContextId) (v : VarId) (o : CsObjId) : Solve P Unit := do
  processAccesses c v o
  processCall c v o

/-- Takes the head off the worklist. -/
def poll : Solve P (Option Pending) :=
  modifyGet fun s =>
    match s.worklist.poll with
    | none => (none, s)
    | some (e, rest) => (some e, { s with worklist := rest })

/-- Carries out one pending propagation, and says whether there was one. -/
def step : Solve P Bool := do
  match ← poll with
  | none => return false
  | some e =>
    modify fun s => { s with stats.iterations := s.stats.iterations + 1 }
    let delta ← propagate e.target e.objects
    if delta.isEmpty then return true
    match ← (← get).elements.pointerKey e.target with
    | .var c v => delta.toList.forM (processObject c v)
    | _ => return true
    return true

/-- Carries out steps until there are none left, and at most a number of them. Gives the number of
steps that were left over. -/
def steps : Nat → Solve P Nat
  | 0 => return 0
  | n + 1 => do if ← step then steps n else return n + 1

/-- Carries out steps until there are none left. -/
def stepAll : Nat → Solve P Unit
  | 0 => throw .outOfRounds
  | rounds + 1 => do if ← step then stepAll rounds

/-- Records the sizes of the tables and graphs. -/
def recordSizes : Solve P Unit :=
  modify fun s => { s with stats := { s.stats with
    reachableMethods := s.callGraph.reachable.size
    callEdges := s.callGraph.edges.size
    flowEdges := s.flow.size
    pointers := s.elements.pointers.size
    csObjects := s.elements.objects.size
    contexts := s.contexts.size } }

/-- Runs the analysis to its end. -/
def solve : Solve P Unit := do
  start
  stepAll P.limit
  recordSizes

end Solve

/-! ## Problems -/

namespace Program

/-- The number of declarations and statements. -/
def size (p : Program) : Nat :=
  p.classes.size + p.fields.size + p.methods.size + p.vars.size + p.invokes.size +
    p.methods.foldl (fun n m => n + m.body.size) 0

end Program

/-- More rounds than an analysis with contexts of depth `k` can take on a program of a given size. A
context is a sequence of at most `k` of at most `size` elements; locations, objects and methods under
contexts, flow edges between locations, and steps are counted from there. -/
def roundLimit (size k : Nat) : Nat :=
  wordLimit + Nat.pow (size + 2) (4 * k + 16)

/-- The problem of analysing a program with the contexts of a strategy. -/
def Problem.ofHierarchy (h : Hierarchy) (s : Strategy) (heapDepth : Option Nat)
    (model : HeapModel) : Problem :=
  ⟨h, .ofStrategy s heapDepth, model, roundLimit h.program.size s.depth⟩

end PointsTo
