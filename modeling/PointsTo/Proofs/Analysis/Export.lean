import PointsTo.Proofs.Analysis.Merging
import PointsTo.Proofs.CallGraph.Export
import PointsTo.Proofs.Hierarchy.CallClosure

/-!
# Exports of the call graphs of a program

An edge is added to a call graph before its callee is reachable. By the time that a call graph is
finished, the callee has been reached, and the caller has been given the call site. So the call graphs
that are built from a program lose no edge when they are exported.
-/

namespace PointsTo

open Inclusion

variable {P : Problem} {q : Policy}

/-! ## By declared types -/

namespace Hierarchy

variable {h : Hierarchy} {starts : List MethodId} {g : MethodCallGraph}

/-- The calls of a closure stand in its methods, and what they lead to belongs to it. -/
theorem Closes.isDrawn (closes : h.Closes starts g) : g.IsDrawn g.edges.toList := by
  apply CallGraph.isDrawn_of_reachable
  intro e listed
  obtain ⟨m, call, running, site, -, may⟩ := (closes.edges e).1 listed
  have container : g.containerOf e.site = some m :=
    (closes.containers e.site m).2 ⟨running, call, site⟩
  have caller : m ∈ g.reachable.toList := (closes.methods m).2 running
  have callee : e.callee ∈ g.reachable.toList :=
    (closes.methods e.callee).2 (running.call site may)
  exact ⟨m, container, caller, callee⟩

theorem isDrawn_of_callGraphFrom (wf : h.program.WellFormed) (rows : Rows h.program.classes.size h)
    (done : h.callGraphFrom starts = .ok g) : g.IsDrawn g.edges.toList := by
  have declared : ∀ m ∈ starts, m.index < h.program.methods.size := by
    intro m listed
    exact declared_of_callGraphFrom done listed
  obtain ⟨g', found, -, closes⟩ := exists_closes wf rows declared
  rw [done] at found
  cases found
  exact closes.isDrawn

end Hierarchy

/-! ## By an analysis -/

namespace SolverState

variable {s : SolverState P}

theorem Intact.isDrawn (intact : s.Intact) : s.callGraph.IsDrawn s.callGraph.edges.toList := by
  apply CallGraph.isDrawn_of_reachable
  intro e listed
  obtain ⟨-, -, -, m, -, -, container, -, caller, -, callee⟩ := intact.edges e listed
  exact ⟨m, container, caller, callee⟩

/-- A call that the merged graph has is one of the calls of its caller, whatever the context. -/
theorem isDrawn_merged {g : MethodCallGraph} (merged : s.mergedCallGraph = .ok g)
    (grounded : s.Grounded q) (wf : P.program.WellFormed) (intact : s.Intact) :
    g.IsDrawn g.edges.toList := by
  apply CallGraph.isDrawn_of_reachable
  intro e listed
  obtain ⟨kind, i, callee⟩ := e
  obtain ⟨e', listed', -, c, c', site, target⟩ := (mem_edges_merged merged).1 listed
  obtain ⟨c₁, i₁, call, x, site', -, -, known, running, own, runs⟩ := intact.edges e' listed'
  rw [site] at site'
  obtain ⟨rfl, rfl⟩ := CsCallSite.mk.inj (Except.ok.inj site')
  have caller : call.container ∈ g.reachable.toList :=
    (mem_reachable_merged merged).2 ⟨x, running, c, known⟩
  have reached : callee ∈ g.reachable.toList :=
    (mem_reachable_merged merged).2 ⟨e'.callee, runs, c', target⟩
  have here : i ∈ g.sitesIn call.container := by
    obtain ⟨invokes, found, images⟩ := grounded.invokesIn_of_reachable running known
    rw [sitesIn_merged merged grounded caller] at found
    rw [Except.ok.inj found]
    exact (mem_of_mapM_eq_ok images).2 ⟨e'.site, own, siteImage_iff.2 ⟨c, site⟩⟩
  exact ⟨call.container, containerOf_merged merged grounded wf caller here, caller, reached⟩

end SolverState

/-! ## Call graphs of built programs -/

namespace Config

/-- The call graphs that are built from a program are drawn with all their edges: the one from its
entries, those from other entries, and those of a result, under contexts and without them. -/
structure DrawsCallGraphs (c : Config) (h : Hierarchy) : Prop where
  byTypes : ∃ g, h.callGraph = .ok g ∧ g.IsDrawn g.edges.toList
  byTypesFrom (starts : List MethodId) (g : MethodCallGraph) :
    h.callGraphFrom starts = .ok g → g.IsDrawn g.edges.toList
  underContexts (r : Result (c.problem .bySite h)) :
    (c.problem .bySite h).analyze c.collectStats = .ok r →
      r.state.callGraph.IsDrawn r.state.callGraph.edges.toList
  merged (r : Result (c.problem .bySite h)) :
    (c.problem .bySite h).analyze c.collectStats = .ok r →
      r.callGraph.IsDrawn r.callGraph.edges.toList

/-- An export leaves out no edge of a call graph that is built from a program. Of any other call graph,
it has just the edges whose caller is known and whose callee is reachable. -/
theorem drawsCallGraphs_of_built {p : Program} (c : Config) (built : p.Built) :
    (∃ h, Hierarchy.ofProgram p = .ok h ∧ h.program = p ∧ c.DrawsCallGraphs h) ∧
      ∀ (s m : Entity) (additions : List (CallGraph.Addition s m)),
        (CallGraph.ofAdditions additions).IsDrawn
          ((CallGraph.ofAdditions additions).edges.toList.filter
            (CallGraph.ofAdditions additions).isShown) := by
  refine ⟨?_, fun s m additions => CallGraph.isDrawn_ofAdditions additions⟩
  obtain ⟨h, hierarchy, rfl⟩ := Hierarchy.exists_ofProgram built.wellFormed.toChecked
  have wf := built.wellFormed
  have rows := Hierarchy.rows_of_ofProgram wf.toChecked hierarchy
  have regular := c.problem_regular built hierarchy
  refine ⟨h, hierarchy, rfl, ?_⟩
  constructor
  case byTypes =>
    obtain ⟨g, found, -⟩ := Hierarchy.exists_callGraph wf rows
    exact ⟨g, found, Hierarchy.isDrawn_of_callGraphFrom wf rows found⟩
  case byTypesFrom =>
    intro starts g done
    exact Hierarchy.isDrawn_of_callGraphFrom wf rows done
  case underContexts =>
    intro r done
    obtain ⟨run, -⟩ := Problem.run_of_analyze done
    exact (SolverState.intact_of_solve regular.toLawful run).1.isDrawn
  case merged =>
    intro r done
    have grounded := (Problem.complete_of_analyze regular done).finished.grounded
    obtain ⟨run, merged⟩ := Problem.run_of_analyze done
    have intact := (SolverState.intact_of_solve regular.toLawful run).1
    exact SolverState.isDrawn_merged merged grounded regular.program intact

/-- The method that calls itself runs under three contexts, and all of its calls are drawn. -/
theorem drawsCallGraphs_of_built_selfGrowing : selfGrowing.Built ∧
    ∃ h r, Hierarchy.ofProgram selfGrowing = .ok h ∧
      (Preset.thorough.config.problem .bySite h).analyze Preset.thorough.config.collectStats = .ok r ∧
      r.state.callGraph.IsDrawn r.state.callGraph.edges.toList ∧
      r.callGraph.IsDrawn r.callGraph.edges.toList ∧
      (r.state.callGraph.toLabelled fun x => .ok x.text : Except OutOfRange _) =
        .ok ⟨#["csmethod#0", "csmethod#1", "csmethod#2", "csmethod#3"],
          #[(0, 1, .virtual), (1, 2, .virtual), (2, 3, .virtual), (3, 3, .virtual)]⟩ ∧
      (r.callGraph.toLabelled fun x => .ok x.text : Except OutOfRange _) =
        .ok ⟨#["method#0", "method#1"], #[(0, 1, .virtual), (1, 1, .virtual)]⟩ := by
  obtain ⟨⟨h, hierarchy, -, draws⟩, -⟩ :=
    drawsCallGraphs_of_built Preset.thorough.config built_selfGrowing
  have runs : selfGrowing.passes (fun h =>
      match (Preset.thorough.config.problem .bySite h).analyze Preset.thorough.config.collectStats with
      | .error _ => false
      | .ok r =>
        decide ((r.state.callGraph.toLabelled fun x => .ok x.text : Except OutOfRange _) =
          .ok ⟨#["csmethod#0", "csmethod#1", "csmethod#2", "csmethod#3"],
            #[(0, 1, .virtual), (1, 2, .virtual), (2, 3, .virtual), (3, 3, .virtual)]⟩) &&
        decide ((r.callGraph.toLabelled fun x => .ok x.text : Except OutOfRange _) =
          .ok ⟨#["method#0", "method#1"], #[(0, 1, .virtual), (1, 1, .virtual)]⟩)) = true := by
    decide +kernel
  have runs := Program.test_of_passes hierarchy runs
  split at runs
  · cases runs
  · rename_i r done
    obtain ⟨under, merged⟩ := Bool.and_eq_true_iff.1 runs
    exact ⟨built_selfGrowing, h, r, hierarchy, done, draws.underContexts r done,
      draws.merged r done, of_decide_eq_true under, of_decide_eq_true merged⟩

end Config

end PointsTo
