import PointsTo.Proofs.Analysis.Solution
import PointsTo.Proofs.CallGraph.Projection
import PointsTo.Proofs.Closure.Distance
import PointsTo.Proofs.Closure.Queue
import PointsTo.Proofs.Hierarchy.CallGraph

/-!
# Call graphs by declared types are closures

The call graph from some entries is built by a loop with a queue. A method that comes out of the queue
for the first time becomes reachable with its call sites, the edges of the sites are added, and what
they lead to is put into the queue. So the graph has exactly the methods that calls lead to from the
entries, and exactly the edges of their call sites, each once.
-/

namespace PointsTo

open Inclusion

namespace Hierarchy

variable {h : Hierarchy} {starts queue : List MethodId} {g g' : MethodCallGraph} {m : MethodId}

/-- What calls lead to from some entries. -/
inductive Reaches (h : Hierarchy) (entries : List MethodId) : MethodId → Prop where
  | entry {m : MethodId} (listed : m ∈ entries) : Reaches h entries m
  | call {m callee : MethodId} {i : InvokeId} {call : Invoke} (caller : Reaches h entries m)
      (site : CallIn h m i call) (may : h.MayCall call callee) : Reaches h entries callee

/-- The loop that builds a call graph until its queue is empty. A method that is reachable by the time
that it comes out of the queue is passed over. -/
inductive Drains (h : Hierarchy) :
    List MethodId → MethodCallGraph → MethodCallGraph → Prop where
  | done {g : MethodCallGraph} : Drains h [] g g
  | again {m : MethodId} {queue : List MethodId} {g g' : MethodCallGraph}
      (known : g.isReachable m = true) (rest : Drains h queue g g') : Drains h (m :: queue) g g'
  | expand {m : MethodId} {queue ms : List MethodId} {g g₁ g' : MethodCallGraph}
      (new : g.isReachable m = false) (added : h.addCaller g m = .ok g₁)
      (callees : h.successors m = .ok ms) (rest : Drains h (queue ++ ms) g₁ g') :
      Drains h (m :: queue) g g'

/-- A call graph is the closure of some methods under calls: it has these methods as entries, it has
what calls lead to from them, and the edges of the calls of what it has. -/
structure Closes (h : Hierarchy) (starts : List MethodId) (g : MethodCallGraph) : Prop where
  entries : g.entries.toList = distinct starts
  methods (m : MethodId) : m ∈ g.reachable.toList ↔ h.Reaches starts m
  edges (e : CallEdge .invoke .method) : e ∈ g.edges.toList ↔
    ∃ m call, h.Reaches starts m ∧ CallIn h m e.site call ∧ e.kind = call.kind ∧
      h.MayCall call e.callee
  nodup : g.reachable.toList.Nodup ∧ g.edges.toList.Nodup
  sites {m : MethodId} : h.Reaches starts m → h.program.invokesIn m = .ok (g.sitesIn m)
  noSites {m : MethodId} : ¬h.Reaches starts m → g.sitesIn m = []
  containers (i : InvokeId) (m : MethodId) :
    g.containerOf i = some m ↔ h.Reaches starts m ∧ ∃ call, CallIn h m i call

/-! ## Adding a caller -/

theorem sameNodes_of_addCallEdges {i : InvokeId} (added : h.addCallEdges g i = .ok g') :
    g.SameNodes g' := by
  obtain ⟨call, -, rest⟩ := bind_eq_ok_iff.1 added
  obtain ⟨ms, -, same⟩ := bind_eq_ok_iff.1 rest
  obtain rfl := pure_eq_ok_iff.1 same
  exact CallGraph.sameNodes_foldl_addEdge call.kind i ms g

/-- A caller becomes reachable with its call sites. Its edges leave methods and call sites alone. -/
theorem exists_sameNodes_of_addCaller (added : h.addCaller g m = .ok g') :
    ∃ sites, h.program.invokesIn m = .ok sites ∧ (g.addReachable m sites).2.SameNodes g' := by
  obtain ⟨sites, found, rest⟩ := bind_eq_ok_iff.1 added
  refine ⟨sites, found, ?_⟩
  apply inv_of_foldlM ?_ rest (CallGraph.SameNodes.refl _)
  intro i _ before after step same
  exact same.trans (sameNodes_of_addCallEdges step)

theorem toList_reachable_of_addCaller (added : h.addCaller g m = .ok g') :
    g'.reachable.toList = addNew g.reachable.toList m := by
  obtain ⟨sites, -, same⟩ := exists_sameNodes_of_addCaller added
  rw [same.reachable, CallGraph.toList_reachable_addReachable]

/-! ## The loop -/

/-- Adding the methods of a walk with a queue one after the other is what the loop does. -/
theorem drains_of_visits {visited order l : List MethodId}
    (visits : Visits h.successors visited queue order) (reached : g.reachable.toList = visited)
    (rest : order = visited ++ l) (built : l.foldlM h.addCaller g = .ok g') :
    h.Drains queue g g' := by
  induction visits generalizing g l with
  | done =>
    obtain rfl : l = [] := by simpa using rest
    obtain rfl := pure_eq_ok_iff.1 built
    exact .done
  | again known _ ih =>
    apply Drains.again ?_ (ih reached rest built)
    rw [CallGraph.isReachable_iff, reached]
    exact known
  | @visit visited queue order ms k new successors later ih =>
    obtain ⟨l', tail⟩ := later.grows
    obtain rfl : l = k :: l' := by
      rw [← tail, List.append_assoc] at rest
      exact (List.append_cancel_left rest).symm
    rw [List.foldlM_cons] at built
    obtain ⟨g₁, added, built⟩ := bind_eq_ok_iff.1 built
    have unknown : g.isReachable k = false := by
      rw [← Bool.not_eq_true, CallGraph.isReachable_iff, reached]
      exact new
    apply Drains.expand unknown added successors
    apply ih ?_ tail.symm built
    rw [toList_reachable_of_addCaller added, reached, addNew, if_neg new]

/-- What a call graph records of its methods. -/
structure Recorded (h : Hierarchy) (g : MethodCallGraph) : Prop where
  sites {m : MethodId} : m ∈ g.reachable.toList → h.program.invokesIn m = .ok (g.sitesIn m)
  noSites {m : MethodId} : m ∉ g.reachable.toList → g.sitesIn m = []
  located : g.Located

/-- One pass of the loop keeps the records of methods. -/
theorem Recorded.addCaller (recorded : h.Recorded g) (new : g.isReachable m = false)
    (added : h.addCaller g m = .ok g') : h.Recorded g' := by
  obtain ⟨sites, found, same⟩ := exists_sameNodes_of_addCaller added
  constructor
  · intro k mem
    rw [same.reachable, CallGraph.mem_reachable_addReachable] at mem
    rw [same.sites, CallGraph.sitesIn_addReachable sites new]
    by_cases here : m = k
    · subst here
      rw [if_pos rfl]
      exact found
    · rw [if_neg here]
      exact recorded.sites (mem.resolve_right (Ne.symm here))
  · intro k absent
    rw [same.reachable, CallGraph.mem_reachable_addReachable, not_or] at absent
    rw [same.sites, CallGraph.sitesIn_addReachable sites new, if_neg (Ne.symm absent.2)]
    exact recorded.noSites absent.1
  · exact (recorded.located.addReachable sites new).of_sameNodes same

theorem Drains.recorded (drains : h.Drains queue g g') (recorded : h.Recorded g) :
    h.Recorded g' := by
  induction drains with
  | done => exact recorded
  | again _ _ ih => exact ih recorded
  | expand new added _ _ ih => exact ih (recorded.addCaller new added)

theorem Drains.entries (drains : h.Drains queue g g') : g'.entries = g.entries := by
  induction drains with
  | done => rfl
  | again _ _ ih => exact ih
  | expand _ added _ _ ih =>
    obtain ⟨sites, -, same⟩ := exists_sameNodes_of_addCaller added
    rw [ih, same.entries, CallGraph.entries_addReachable]

theorem reachable_entries (starts : List MethodId) :
    (starts.foldl CallGraph.addEntry (.empty : MethodCallGraph)).reachable.toList = [] := by
  rw [(CallGraph.foldl_addEntry starts _).1]
  rfl

/-- A graph that has only entries records nothing yet. -/
theorem recorded_entries (h : Hierarchy) (starts : List MethodId) :
    h.Recorded (starts.foldl CallGraph.addEntry .empty) := by
  constructor
  · intro m mem
    rw [reachable_entries] at mem
    cases mem
  · intro m absent
    exact (CallGraph.indexed_assemble starts [] []).sites absent
  · exact CallGraph.located_assemble starts [] []

/-! ## The closure -/

theorem declared_of_callIn {i : InvokeId} {call : Invoke} (site : CallIn h m i call) :
    m.index < h.program.methods.size := by
  obtain ⟨position, stands⟩ := site.stmt
  obtain ⟨method, declared, -⟩ := Program.stmt?_eq_some_iff.1 stands
  exact (Array.getElem?_eq_some_iff.1 declared).1

theorem declared_of_invokesIn {sites : List InvokeId} (invokes : h.program.invokesIn m = .ok sites) :
    m.index < h.program.methods.size := by
  obtain ⟨method, lookup, -⟩ := bind_eq_ok_iff.1 invokes
  exact exists_fetch_eq_ok_iff.1 ⟨method, lookup⟩

/-- A call graph is built from declared methods only, since the calls of each of them are looked up. -/
theorem declared_of_callGraphFrom (done : h.callGraphFrom starts = .ok g) (listed : m ∈ starts) :
    m.index < h.program.methods.size := by
  obtain ⟨t, closed, built⟩ := bind_eq_ok_iff.1 done
  have seeds : (Table.ofList starts).toList <+: t.toList := prefix_expandFrom closed
  have mem : m ∈ t.toList := seeds.subset (mem_toList_ofList.2 listed)
  obtain ⟨before, after, split⟩ := List.append_of_mem mem
  rw [split, List.foldlM_append] at built
  obtain ⟨g₁, -, built⟩ := bind_eq_ok_iff.1 built
  rw [List.foldlM_cons] at built
  obtain ⟨g₂, added, -⟩ := bind_eq_ok_iff.1 built
  obtain ⟨sites, invokes, -⟩ := bind_eq_ok_iff.1 added
  exact declared_of_invokesIn invokes

/-- The methods that a call site may reach are listed once. -/
theorem nodup_of_targets {i : InvokeId} {ms : List MethodId} (found : h.targets i = .ok ms) :
    ms.Nodup := by
  have single : ∀ found : Option MethodId, found.toList.Nodup := by
    intro found
    cases found <;> simp
  have below : ∀ {s : Subsignature} {l : List ClassId}, h.dispatchAll s l = .ok ms → ms.Nodup := by
    intro s l dispatched
    obtain ⟨all, -, same⟩ := bind_eq_ok_iff.1 dispatched
    obtain rfl := pure_eq_ok_iff.1 same
    exact nodup_distinct _
  obtain ⟨call, -, rest⟩ := bind_eq_ok_iff.1 found
  cases kind : call.kind with
  | static | special =>
    rw [kind] at rest
    obtain ⟨resolved, -, same⟩ := bind_eq_ok_iff.1 rest
    obtain rfl := pure_eq_ok_iff.1 same
    exact single resolved
  | virtual | interface =>
    rw [kind] at rest
    obtain ⟨l, -, dispatched⟩ := bind_eq_ok_iff.1 rest
    exact below dispatched

section WellFormed

variable (wf : h.program.WellFormed)
include wf

/-- The call sites of a recorded method are the calls of its body. -/
theorem Recorded.mem_sitesIn_iff (recorded : h.Recorded g) (mem : m ∈ g.reachable.toList)
    {i : InvokeId} : i ∈ g.sitesIn m ↔ ∃ call, CallIn h m i call := by
  have invokes := recorded.sites mem
  obtain ⟨l, found, members⟩ := exists_invokesIn wf (declared_of_invokesIn invokes)
  obtain rfl := Except.ok.inj (invokes.symm.trans found)
  exact members i

/-- A call site is filed under the recorded method whose body has the call. -/
theorem Recorded.containerOf_eq_some_iff (recorded : h.Recorded g) {i : InvokeId} :
    g.containerOf i = some m ↔ m ∈ g.reachable.toList ∧ ∃ call, CallIn h m i call := by
  constructor
  · intro contained
    obtain ⟨mem, listed⟩ := recorded.located.listed contained
    exact ⟨mem, (recorded.mem_sitesIn_iff wf mem).1 listed⟩
  · rintro ⟨mem, call, site⟩
    have listed := (recorded.mem_sitesIn_iff wf mem).2 ⟨call, site⟩
    obtain ⟨m', found⟩ := recorded.located.located mem listed
    obtain ⟨mem', listed'⟩ := recorded.located.listed found
    obtain ⟨call', site'⟩ := (recorded.mem_sitesIn_iff wf mem').1 listed'
    -- a call belongs to one method
    have same : m' = m := by
      rw [← (site.admitted wf).1, ← (site'.admitted wf).1, site.unique site']
    rw [found, same]

variable (rows : Rows h.program.classes.size h)
include rows

/-- The successors of a method are what its calls may reach. -/
theorem exists_successors_iff {callee : MethodId} :
    (∃ ms, h.successors m = .ok ms ∧ callee ∈ ms) ↔
      ∃ i call, CallIn h m i call ∧ h.MayCall call callee := by
  constructor
  · intro follows
    obtain ⟨ms, found, mem⟩ := follows
    obtain ⟨sites, invokes, -⟩ := bind_eq_ok_iff.1 found
    obtain ⟨ms', found', members⟩ := exists_successors wf rows (declared_of_invokesIn invokes)
    obtain rfl := Except.ok.inj (found.symm.trans found')
    exact (members callee).1 mem
  · intro calls
    obtain ⟨i, call, site, may⟩ := id calls
    obtain ⟨ms, found, members⟩ := exists_successors wf rows (declared_of_callIn site)
    exact ⟨ms, found, (members callee).2 calls⟩

/-- Paths along successors are sequences of calls. -/
theorem exists_pathTo_iff_reaches :
    (∃ n, PathTo h.successors starts n m) ↔ h.Reaches starts m := by
  constructor
  · intro reached
    obtain ⟨n, path⟩ := reached
    induction path with
    | seed mem => exact .entry mem
    | link _ successors mem ih =>
      obtain ⟨i, call, site, may⟩ := (exists_successors_iff wf rows).1 ⟨_, successors, mem⟩
      exact ih.call site may
  · intro reached
    induction reached with
    | entry listed => exact ⟨0, .seed listed⟩
    | call _ site may ih =>
      obtain ⟨n, before⟩ := ih
      obtain ⟨ms, successors, mem⟩ := (exists_successors_iff wf rows).2 ⟨_, _, site, may⟩
      exact ⟨n + 1, .link before successors mem⟩

/-- The loop comes to the closure of declared entries. -/
theorem exists_closes (declared : ∀ m ∈ starts, m.index < h.program.methods.size) :
    ∃ g, h.callGraphFrom starts = .ok g ∧
      h.Drains starts (starts.foldl CallGraph.addEntry .empty) g ∧ h.Closes starts g := by
  obtain ⟨g, t, found, folded, expands, -, has⟩ := exists_callGraphFrom wf rows declared
  have drains := drains_of_visits expands.visits_of_seeds (reachable_entries starts) rfl folded
  have recorded := drains.recorded (recorded_entries h starts)
  have reached : ∀ m, m ∈ t.toList ↔ h.Reaches starts m := by
    intro m
    rw [expands.mem_toList_iff_pathTo]
    exact exists_pathTo_iff_reaches wf rows
  have methods : ∀ m, m ∈ g.reachable.toList ↔ h.Reaches starts m := by
    intro m
    have listed := has (.inl m)
    simp only [CallGraph.Has, Adds, exists_eq_right'] at listed
    rw [listed, reached]
  refine ⟨g, found, drains, ?_, methods, ?_, ⟨Table.nodup_toList _, Table.nodup_toList _⟩, ?_,
    ?_, ?_⟩
  · rw [drains.entries]
    exact CallGraph.entries_assemble starts [] []
  · intro e
    have listed := has (.inr e)
    simp only [CallGraph.Has, Adds, reached] at listed
    rw [listed]
    simp only [exists_and_left]
  · intro m running
    exact recorded.sites ((methods m).2 running)
  · intro m idle
    rw [← methods] at idle
    exact recorded.noSites idle
  · intro i m
    rw [recorded.containerOf_eq_some_iff wf, methods]

end WellFormed

/-- In a built program, a call site may reach its static or special target, or what dispatch finds on
the subtypes of the class that it names, each method listed once. From declared methods, the loop with
a queue ends, and with their closure under calls. -/
theorem closes_of_callGraphFrom {p : Program} (built : p.Built) :
    ∃ h, Hierarchy.ofProgram p = .ok h ∧ h.program = p ∧
      (∀ m i call, CallIn h m i call →
        ∃ ms, h.targets i = .ok ms ∧ ms.Nodup ∧ ∀ callee, callee ∈ ms ↔ h.MayCall call callee) ∧
      ∀ starts : List MethodId, (∀ m ∈ starts, m.index < p.methods.size) →
        ∃ g, h.callGraphFrom starts = .ok g ∧
          h.Drains starts (starts.foldl CallGraph.addEntry .empty) g ∧ h.Closes starts g := by
  obtain ⟨h, hierarchy, rfl⟩ := Hierarchy.exists_ofProgram built.wellFormed.toChecked
  have wf := built.wellFormed
  have rows := rows_of_ofProgram wf.toChecked hierarchy
  refine ⟨h, hierarchy, rfl, ?_, ?_⟩
  · intro m i call site
    obtain ⟨ms, found, members⟩ := exists_targets wf rows site.call (site.admitted wf).2.1
    exact ⟨ms, found, nodup_of_targets found, members⟩
  · intro starts declared
    exact exists_closes wf rows declared

/-- Two static methods that call each other, one of which calls a method with an override. The method
calls itself on its receiver. -/
def mutualCalls : Program :=
  (Program.ofDeclarations? [
    .addClass "A" none false,
    .addClass "B" (some ⟨0⟩) false,
    .addMethod ⟨0⟩ ⟨"void run()"⟩ false [],
    .addMethod ⟨1⟩ ⟨"void run()"⟩ false [],
    .addMethod ⟨0⟩ ⟨"void even()"⟩ true [],
    .addMethod ⟨0⟩ ⟨"void odd()"⟩ true [],
    .var ⟨3⟩ "x",
    .addInvoke ⟨2⟩ .static ⟨⟨0⟩, ⟨"void odd()"⟩⟩ none [] none,
    .addInvoke ⟨3⟩ .static ⟨⟨0⟩, ⟨"void even()"⟩⟩ none [] none,
    .addInvoke ⟨3⟩ .virtual ⟨⟨0⟩, ⟨"void run()"⟩⟩ (some ⟨2⟩) [] none,
    .addInvoke ⟨0⟩ .virtual ⟨⟨0⟩, ⟨"void run()"⟩⟩ (some ⟨0⟩) [] none]).getD .empty

/-- From the two static methods, one given twice, calls lead to all four methods. -/
theorem closes_of_callGraphFrom_mutualCalls : mutualCalls.Built ∧
    (∀ m ∈ ([⟨2⟩, ⟨3⟩, ⟨2⟩] : List MethodId), m.index < mutualCalls.methods.size) ∧
    ∃ h g, Hierarchy.ofProgram mutualCalls = .ok h ∧
      h.callGraphFrom [⟨2⟩, ⟨3⟩, ⟨2⟩] = .ok g ∧ h.Closes [⟨2⟩, ⟨3⟩, ⟨2⟩] g ∧
      g.entries.toList = [⟨2⟩, ⟨3⟩] ∧ g.reachable.toList = [⟨2⟩, ⟨3⟩, ⟨0⟩, ⟨1⟩] ∧
      g.edges.size = 6 ∧ h.Reaches [⟨2⟩, ⟨3⟩, ⟨2⟩] ⟨1⟩ := by
  have built : mutualCalls.Built := Program.built_of_ofDeclarations? (by decide +kernel)
  have declared : ∀ m ∈ ([⟨2⟩, ⟨3⟩, ⟨2⟩] : List MethodId), m.index < mutualCalls.methods.size := by
    decide +kernel
  obtain ⟨h, hierarchy, -, -, closes⟩ := closes_of_callGraphFrom built
  obtain ⟨g, found, -, closes⟩ := closes [⟨2⟩, ⟨3⟩, ⟨2⟩] declared
  have tests : mutualCalls.passes (fun h =>
      (h.callGraphFrom [⟨2⟩, ⟨3⟩, ⟨2⟩]).toOption.map (fun g =>
        (g.reachable.toList, g.edges.size)) == some ([⟨2⟩, ⟨3⟩, ⟨0⟩, ⟨1⟩], 6)) = true := by
    decide +kernel
  have passed := Program.test_of_passes hierarchy tests
  simp only [beq_iff_eq, Option.map_eq_some_iff, toOption_eq_some_iff, found, Except.ok.injEq,
    exists_eq_left', Prod.mk.injEq] at passed
  obtain ⟨reachable, edges⟩ := passed
  have entries : g.entries.toList = [⟨2⟩, ⟨3⟩] := by
    rw [closes.entries]
    decide
  refine ⟨built, declared, h, g, hierarchy, found, closes, entries, reachable, edges, ?_⟩
  rw [← closes.methods, reachable]
  simp

end Hierarchy

end PointsTo
