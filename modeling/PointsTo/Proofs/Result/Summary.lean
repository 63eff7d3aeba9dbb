import PointsTo.Proofs.Result.Image
import PointsTo.Result.Summary

/-!
# Summaries of complete results

A summary names methods, variables and types. At the end of a run all of them are declared: methods
that can run, callers and callees, the methods of variables that the analysis has met, and the types
and methods of allocations. So a complete result has a summary.
-/

namespace PointsTo

open Inclusion

variable {P : Problem} {q : Policy}

/-- A method that can run has a name. -/
theorem Problem.exists_methodName_of_reachable (wf : P.program.WellFormed) {t : Trail}
    {m : MethodId} (reached : P.Derives q (.reachable ⟨t, m⟩)) :
    ∃ name, P.program.methodName m = .ok name := by
  obtain ⟨method, declared⟩ := exists_method_of_reachable wf reached
  exact exists_methodName wf declared

namespace Result

section Complete

variable {r : Result P} (lawful : P.Lawful q) (complete : r.Complete q)
include lawful complete

/-- An object comes from an allocation statement, whose type and method have names. -/
theorem exists_objectName {o : ObjId} {obj : Obj} (found : r.objects[o.index]? = some obj) :
    ∃ name, r.objectName o = .ok name := by
  have wf := lawful.program
  have lookup : r.objectAt o = .ok obj :=
    (lawful.heap.objectAt r.state.heap o).trans (fetch_eq_ok_iff.2 found)
  obtain ⟨-, allocates⟩ := lawful.heap.allocated complete.finished.grounded.heap found
  obtain ⟨method, lhs, declared, stands, -⟩ := Program.allocation?_eq_some_iff.1 allocates
  obtain ⟨type, typed⟩ := ((wf.stmts _ _ _ stands).allocated lhs obj.ty rfl).exists_typeName
  obtain ⟨name, named⟩ := Problem.exists_methodName wf declared
  simp only [objectName, lookup, typed, named, bind, Except.bind]
  exact ⟨_, rfl⟩

/-- A call stands in a method that can run, and calls one. -/
theorem exists_callSummary {e : CallEdge .invoke .method} (listed : e ∈ r.callGraph.edges.toList) :
    ∃ summary, callSummary (P := P) e = .ok summary := by
  have wf := lawful.program
  obtain ⟨t, t', holds⟩ := (complete.calls e).1 listed
  have called := complete.finished.grounded.derives holds
  obtain ⟨m, call, site, reached⟩ := exists_callIn_of_calls called
  have lookup : P.program.invokeAt e.site = .ok call := fetch_eq_ok_iff.2 site.call
  obtain ⟨caller, named⟩ := Problem.exists_methodName_of_reachable wf reached
  rw [← (site.admitted wf).1] at named
  obtain ⟨callee, named'⟩ := Problem.exists_methodName_of_reachable wf (.one .callee called)
  simp only [callSummary, lookup, named, named', bind, Except.bind]
  exact ⟨_, rfl⟩

/-- A variable that the analysis has met belongs to a method that can run. -/
theorem exists_varSummary {v : VarId} (listed : v ∈ r.vars.toList) :
    ∃ summary, r.varSummary v = .ok summary := by
  have wf := lawful.program
  have grounded := complete.finished.grounded
  obtain ⟨⟨p, c, v'⟩, met, rfl⟩ := List.mem_map.1 (IdSet.mem_ofList.1 listed)
  obtain ⟨t, var, -, -, declared, reached⟩ :=
    grounded.exists_varAt wf (ElementStore.mem_varPointers.1 met)
  have lookup : P.program.varAt v' = .ok var := fetch_eq_ok_iff.2 declared
  obtain ⟨name, named⟩ := Problem.exists_methodName_of_reachable wf reached
  obtain ⟨set, answered, collects⟩ := exists_pointsTo lawful grounded v'
  obtain ⟨objects, told⟩ := exists_mapM_eq_ok (f := r.objectName) (l := set.toList) fun o mem => by
    obtain ⟨l, t, obj, -, found, -⟩ := (collects o).1 mem
    exact exists_objectName lawful complete found
  simp only [varSummary, lookup, named, answered, told, bind, Except.bind]
  exact ⟨_, rfl⟩

/-- A complete result has a summary. -/
theorem Complete.exists_summary : ∃ summary, r.summary = .ok summary := by
  obtain ⟨methods, named⟩ := exists_mapM_eq_ok (f := P.program.methodName)
    (l := r.reachableMethods) fun m listed => by
      obtain ⟨t, holds⟩ := (complete.methods m).1 listed
      exact Problem.exists_methodName_of_reachable lawful.program
        (complete.finished.grounded.derives holds)
  obtain ⟨calls, told⟩ := exists_mapM_eq_ok (f := callSummary (P := P))
    (l := r.callGraph.edges.toList) fun e listed => exists_callSummary lawful complete listed
  obtain ⟨vars, told'⟩ := exists_mapM_eq_ok (f := r.varSummary) (l := r.vars.toList)
    fun v listed => exists_varSummary lawful complete listed
  simp only [summary, named, told, told', bind, Except.bind]
  exact ⟨_, rfl⟩

end Complete

end Result

end PointsTo
