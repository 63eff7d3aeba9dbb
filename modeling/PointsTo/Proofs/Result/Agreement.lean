import PointsTo.Proofs.Inclusion.Reordering
import PointsTo.Proofs.Result.Image
import PointsTo.Proofs.Solver.Names

/-!
# Agreement of results

Two results agree if they answer every question alike, with the allocations of one program matched
with those of the other, and have tables and graphs of the same sizes. Results of finished runs agree
if the programs simulate each other faithfully: everything that a finished run has made stands for
something in the least solution, and the least solutions have each other's image.
-/

namespace PointsTo

open Inclusion

variable {P Q : Problem} {F G : Policy}

/-! ## Sizes -/

/-- The places that the edge at a position of the flow graph connects. -/
def SolverState.ends? (s : SolverState P) (i : Nat) : Option (Location × Location) := do
  let e ← s.flow.edges.get? i
  return (← s.locationAt? e.source, ← s.locationAt? e.target)

theorem SolverState.ends?_eq_some_iff {s : SolverState P} {i : Nat} {l l' : Location} :
    s.ends? i = some (l, l') ↔ ∃ e, s.flow.edges.get? i = some e ∧
      s.locationAt? e.source = some l ∧ s.locationAt? e.target = some l' := by
  simp [ends?, Option.bind_eq_some_iff]

namespace SolverState.Finished

variable {s : SolverState P} {s' : SolverState Q} (lawful : P.Lawful F) (lawful' : Q.Lawful G)
  (finished : s.Finished F) (finished' : s'.Finished G)
  {S : Simulation P.hierarchy Q.hierarchy F G} (faithful : S.Faithful)
include lawful lawful' finished finished' faithful

/-- Each context has an image of its own. -/
theorem contexts_le : s.contexts.size ≤ s'.contexts.size := by
  have distinct := finished.grounded.distinctSites lawful
  apply le_of_readings (fun i => s.trail? ⟨i⟩) (fun i => s'.trail? ⟨i⟩) faithful.trails
  · intro i j t read read'
    exact congrArg Id.index (trail?_injective distinct read read')
  · intro i inside
    obtain ⟨ctx, known⟩ := Table.exists_get?_of_lt_size inside
    obtain ⟨t, read, used⟩ := finished.grounded.exists_trail? (c := ⟨i⟩) known
    obtain ⟨c, read'⟩ := finished'.exists_context lawful' (S.used faithful.onHeap used)
    exact ⟨t, read, c.index, context_lt_of_trail? read', read'⟩

/-- Each object under a heap context has an image of its own. -/
theorem csObjects_le : s.elements.objects.size ≤ s'.elements.objects.size := by
  have distinct := finished.grounded.distinctSites lawful
  apply le_of_readings (fun i => s.heapObj? ⟨i⟩) (fun i => s'.heapObj? ⟨i⟩) faithful.heapObj_injective
  · intro i j o read read'
    exact congrArg Id.index (heapObj?_injective distinct read read')
  · intro i inside
    obtain ⟨x, known⟩ := Table.exists_get?_of_lt_size inside
    obtain ⟨o, read, made⟩ := finished.grounded.exists_heapObj? (x := ⟨i⟩) known
    obtain ⟨x', read'⟩ := finished'.exists_csObj lawful' (S.made made)
    exact ⟨o, read, x'.index, object_lt_of_heapObj? read', read'⟩

/-- Each location has an image of its own. -/
theorem pointers_le : s.elements.pointers.size ≤ s'.elements.pointers.size := by
  have distinct := finished.grounded.distinctSites lawful
  apply le_of_readings (fun i => s.locationAt? ⟨i⟩) (fun i => s'.locationAt? ⟨i⟩)
    faithful.location_injective
  · intro i j l read read'
    exact congrArg Id.index (locationAt?_injective distinct read read')
  · intro i inside
    obtain ⟨k, known⟩ := Table.exists_get?_of_lt_size inside
    obtain ⟨l, read, -, met⟩ := finished.grounded.exists_locationAt? (p := ⟨i⟩) known
    obtain ⟨p, read'⟩ := finished'.exists_pointer lawful' (S.met met)
    obtain ⟨k', known', -⟩ := locationAt?_eq_some_iff.1 read'
    exact ⟨l, read, p.index, Table.lt_size_of_get? known', read'⟩

/-- Each flow edge has an image of its own. -/
theorem flow_le : s.flow.size ≤ s'.flow.size := by
  have distinct := finished.grounded.distinctSites lawful
  have pairs : Function.Injective (Prod.map S.location S.location) :=
    faithful.location_injective.prodMap faithful.location_injective
  apply le_of_readings s.ends? s'.ends? pairs
  · rintro i j ⟨l, l'⟩ read read'
    obtain ⟨e, known, source, target⟩ := ends?_eq_some_iff.1 read
    obtain ⟨e', known', source', target'⟩ := ends?_eq_some_iff.1 read'
    have first := locationAt?_injective distinct source source'
    have second := locationAt?_injective distinct target target'
    have same : e = e' := by
      show FlowEdge.mk e.source e.target = FlowEdge.mk e'.source e'.target
      rw [first, second]
    rw [← same] at known'
    exact Table.get?_injective known known'
  · intro i inside
    obtain ⟨e, known⟩ := Table.exists_get?_of_lt_size inside
    obtain ⟨l, l', source, target, connects⟩ :=
      finished.grounded.flow e (Table.mem_toList_of_get? known)
    obtain ⟨e', listed, source', target'⟩ := finished'.flowsTo lawful' (S.flow connects)
    obtain ⟨j, known'⟩ := Table.mem_toList_iff_get?.1 listed
    exact ⟨(l, l'), ends?_eq_some_iff.2 ⟨e, known, source, target⟩, j, Table.lt_size_of_get? known',
      ends?_eq_some_iff.2 ⟨e', known', source', target'⟩⟩

end SolverState.Finished

/-! ## Agreement -/

namespace Result

/-- Two questions are answered with objects of matching allocations. -/
def Same (f : AllocSite → AllocSite) (r : Result P) (r' : Result Q)
    (answer answer' : Except OutOfRange (IdSet .object)) : Prop :=
  ∃ set set', answer = .ok set ∧ answer' = .ok set' ∧
    (∀ o ∈ set, ∃ o' ∈ set', r.Matched f r' o o') ∧ ∀ o' ∈ set', ∃ o ∈ set, r.Matched f r' o o'

/-- Two results agree if allocations of the one are matched with allocations of the other. -/
structure Agrees (f : AllocSite → AllocSite) (r : Result P) (r' : Result Q) : Prop where
  objects (o : ObjId) : o.index < r.objects.size → ∃ o', r.Matched f r' o o'
  objects' (o' : ObjId) : o'.index < r'.objects.size → ∃ o, r.Matched f r' o o'
  pointsTo (v : VarId) : r.Same f r' (r.pointsTo v) (r'.pointsTo v)
  staticField (g : FieldId) :
    r.Same f r' (r.staticFieldPointsTo g) (r'.staticFieldPointsTo g)
  instanceField {o o' : ObjId} (g : FieldId) : r.Matched f r' o o' →
    r.Same f r' (r.instanceFieldPointsTo o g) (r'.instanceFieldPointsTo o' g)
  array {o o' : ObjId} : r.Matched f r' o o' →
    r.Same f r' (r.arrayPointsTo o) (r'.arrayPointsTo o')
  reachableMethods (m : MethodId) : m ∈ r.reachableMethods ↔ m ∈ r'.reachableMethods
  callEdges (e : CallEdge .invoke .method) :
    e ∈ r.callGraph.edges.toList ↔ e ∈ r'.callGraph.edges.toList
  contexts : r.state.contexts.size = r'.state.contexts.size
  pointers : r.state.elements.pointers.size = r'.state.elements.pointers.size
  csObjects : r.state.elements.objects.size = r'.state.elements.objects.size
  flowEdges : r.state.flow.size = r'.state.flow.size

variable {r : Result P} {r' : Result Q} {f g : AllocSite → AllocSite}

section Inverse

variable (inverse : ∀ site, g (f site) = site) (inverse' : ∀ site, f (g site) = site)
include inverse inverse'

/-- Matching is the same from both sides. -/
theorem matched_iff {o o' : ObjId} : r'.Matched g r o' o ↔ r.Matched f r' o o' := by
  constructor
  · rintro ⟨obj', obj, found', found, site⟩
    exact ⟨obj, obj', found, found', by rw [← site, inverse']⟩
  · rintro ⟨obj, obj', found, found', site⟩
    exact ⟨obj', obj, found', found, by rw [← site, inverse]⟩

/-- Two answers that are carried both ways are the same. -/
theorem same_of_carried {answer answer' : Except OutOfRange (IdSet .object)}
    (there : r.Carried f r' answer answer') (back : r'.Carried g r answer' answer) :
    r.Same f r' answer answer' := by
  obtain ⟨set, set', given, given', covers⟩ := there
  obtain ⟨set₁', set₁, found', found, covers'⟩ := back
  rw [given'] at found'
  rw [given] at found
  obtain rfl := Except.ok.inj found'
  obtain rfl := Except.ok.inj found
  refine ⟨set, set', given, given', covers, fun o' mem => ?_⟩
  obtain ⟨o, mem', same⟩ := covers' o' mem
  exact ⟨o, mem', (matched_iff inverse inverse').1 same⟩

end Inverse

variable (lawful : P.Lawful F) (lawful' : Q.Lawful G) (complete : r.Complete F)
  (complete' : r'.Complete G) {S : Simulation P.hierarchy Q.hierarchy F G}
  {T : Simulation Q.hierarchy P.hierarchy G F} (faithful : S.Faithful) (faithful' : T.Faithful)
  (inverse : ∀ site, T.onSite (S.onSite site) = site)
  (inverse' : ∀ site, S.onSite (T.onSite site) = site)
include lawful lawful' complete complete' faithful faithful' inverse inverse'

/-- The results of programs that simulate each other agree. -/
theorem agrees_of_simulations : r.Agrees S.onSite r' := by
  have there := image_of_simulation S lawful lawful' complete complete'
  have back := image_of_simulation T lawful' lawful complete' complete
  have matched {o o' : ObjId} : r'.Matched T.onSite r o' o ↔ r.Matched S.onSite r' o o' :=
    matched_iff inverse inverse'
  have same {answer answer' : Except OutOfRange (IdSet .object)} :
      r.Carried S.onSite r' answer answer' → r'.Carried T.onSite r answer' answer →
        r.Same S.onSite r' answer answer' := same_of_carried inverse inverse'
  have finished := complete.finished
  have finished' := complete'.finished
  constructor
  case objects => exact there.objects
  case objects' => exact fun o' inside => (back.objects o' inside).imp fun _ => matched.1
  case pointsTo => exact fun v => same (there.pointsTo v) (back.pointsTo v)
  case staticField => exact fun g => same (there.staticField g) (back.staticField g)
  case instanceField =>
    exact fun g base => same (there.instanceField g base) (back.instanceField g (matched.2 base))
  case array => exact fun base => same (there.array base) (back.array (matched.2 base))
  case reachableMethods => exact fun m => ⟨there.reachableMethods m, back.reachableMethods m⟩
  case callEdges => exact fun e => ⟨there.callEdges e, back.callEdges e⟩
  case contexts =>
    exact Nat.le_antisymm (finished.contexts_le lawful lawful' finished' faithful)
      (finished'.contexts_le lawful' lawful finished faithful')
  case pointers =>
    exact Nat.le_antisymm (finished.pointers_le lawful lawful' finished' faithful)
      (finished'.pointers_le lawful' lawful finished faithful')
  case csObjects =>
    exact Nat.le_antisymm (finished.csObjects_le lawful lawful' finished' faithful)
      (finished'.csObjects_le lawful' lawful finished faithful')
  case flowEdges =>
    exact Nat.le_antisymm (finished.flow_le lawful lawful' finished' faithful)
      (finished'.flow_le lawful' lawful finished faithful')

end Result

end PointsTo
