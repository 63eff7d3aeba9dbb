import PointsTo.Proofs.Solver.Reaching
import PointsTo.Proofs.Solver.RunMoves

/-!
# Steps and runs

A step delivers pending objects and handles those that were new, so a run that has emptied its
worklist has handled everything that it says.
-/

namespace PointsTo

open Inclusion

variable {P : Problem} {q : Policy}

namespace SolverState

variable {s s' : SolverState P} {e : Pending} {rest : Worklist} {known : ObjectSet}

/-- A delivery changes points-to sets, the worklist and counters only. -/
theorem delivered_eq (s : SolverState P) (e : Pending) (rest : Worklist) (known : ObjectSet) :
    ∃ elements worklist stats,
      s.delivered e rest known =
        { s with elements := elements, worklist := worklist, stats := stats } ∧
      elements.pointers = s.elements.pointers ∧ elements.objects = s.elements.objects ∧
      elements.methods = s.elements.methods ∧ elements.callSites = s.elements.callSites := by
  by_cases none : (known.fresh e.objects).isEmpty
  · exact ⟨_, _, _, if_pos none, rfl, rfl, rfl, rfl⟩
  · exact ⟨_, _, _, if_neg none, rfl, rfl, rfl, rfl⟩

theorem grows_delivered (head : s.worklist.poll = some (e, rest))
    (found : s.elements.pointsToSet e.target = .ok known) : s.Grows (s.delivered e rest known) := by
  have kept := kept_delivered head found
  obtain ⟨elements, worklist, stats, same, -⟩ := delivered_eq s e rest known
  rw [same] at kept ⊢
  exact ⟨kept, List.prefix_rfl, List.prefix_rfl⟩

/-- What is pending after a delivery was pending before, or goes along a flow edge. -/
theorem pending_delivered (head : s.worklist.poll = some (e, rest)) {e' : Pending}
    (pending : e' ∈ (s.delivered e rest known).worklist.toList) :
    e' ∈ s.worklist.toList ∨ e'.target ∈ s.flow.targetsOf e.target := by
  have old : e' ∈ rest.toList → e' ∈ s.worklist.toList := by
    intro mem
    rw [Worklist.toList_eq_cons_of_poll head]
    exact List.mem_cons_of_mem e mem
  by_cases none : (known.fresh e.objects).isEmpty
  · rw [delivered, propagated, if_pos none] at pending
    exact Or.inl (old pending)
  · rw [delivered, propagated, if_neg none] at pending
    simp only [toList_foldl_add, List.mem_append, List.mem_map] at pending
    rcases pending with mem | ⟨t, listed, rfl⟩
    · exact Or.inl (old mem)
    · exact Or.inr listed

/-- An object that has been sent after a delivery was sent before, or goes along a flow edge. -/
theorem sent_delivered (head : s.worklist.poll = some (e, rest))
    (found : s.elements.pointsToSet e.target = .ok known) {p : PointerId} {x : CsObjId}
    (sent : (s.delivered e rest known).Sent p x) :
    s.Sent p x ∨ p ∈ s.flow.targetsOf e.target ∧ x ∈ e.objects := by
  have found' : (s.taken rest).elements.pointsToSet e.target = .ok known := found
  rcases sent with arrived | pending
  · rcases (contains_propagated found').1 arrived with old | ⟨rfl, mem⟩
    · exact Or.inl (Or.inl old)
    · exact Or.inl (Or.inr ((awaits_of_poll head).2 (Or.inl ⟨rfl, mem⟩)))
  · rcases awaits_propagated.1 pending with old | ⟨listed, new⟩
    · exact Or.inl (Or.inr ((awaits_of_poll head).2 (Or.inr old)))
    · exact Or.inr ⟨listed, (IdSet.mem_fresh.1 new).1⟩

/-- A delivery keeps a state grounded: objects that may reach a location may pass its edges. -/
theorem Grounded.delivered (grounded : s.Grounded q) (indexed : s.flow.Indexed)
    (head : s.worklist.poll = some (e, rest))
    (found : s.elements.pointsToSet e.target = .ok known) :
    (s.delivered e rest known).Grounded q := by
  have grow := grows_delivered head found
  have pending : ∀ e' ∈ (s.delivered e rest known).worklist.toList, e' ∈ s.worklist.toList ∨
      ∃ l, (s.delivered e rest known).locationAt? e'.target = some l := by
    intro e' mem
    refine (pending_delivered head mem).imp_right fun listed => ?_
    obtain ⟨-, l', -, target, -⟩ := grounded.flow _ ((indexed.mem_targetsOf _ _).1 listed)
    exact ⟨l', grow.locationAt? target⟩
  have sent : ∀ p x, (s.delivered e rest known).Sent p x → s.Sent p x ∨
      (s.delivered e rest known).GroundedObject q p x := by
    intro p x mem
    refine (sent_delivered head found mem).imp_right fun ⟨listed, mem'⟩ => ?_
    obtain ⟨l, l', source, target, connects⟩ :=
      grounded.flow _ ((indexed.mem_targetsOf _ _).1 listed)
    have before : s.Sent e.target x := Or.inr ((awaits_of_poll head).2 (Or.inl ⟨rfl, mem'⟩))
    obtain ⟨l₁, o, place, object, derived⟩ := grounded.sent e.target x before
    rw [source] at place
    obtain rfl := Option.some.inj place
    exact grow.groundedObject ⟨l', o, target, object, connects.passes derived⟩
  refine grounded.grow grow ?_
  obtain ⟨elements, worklist, stats, same, pointers, objects, methods, callSites⟩ :=
    delivered_eq s e rest known
  rw [same] at sent pending ⊢
  exact .of_parts grounded rfl rfl (.of_eq objects methods callSites pointers)
    ⟨sent, pending, fun _ => Or.inl⟩ (.of_eq rfl)

/-- The facts of a location and some objects. -/
def ArrivedAt (s : SolverState P) (p : PointerId) (objects : ObjectSet) (f : Fact) : Prop :=
  ∃ x ∈ objects, ∃ l o, f = .pointsTo l o ∧ s.locationAt? p = some l ∧ s.heapObj? x = some o

/-- A delivery adds the facts that the objects which were new have arrived. -/
theorem Grounded.holds_of_delivered (grounded : s.Grounded q)
    (head : s.worklist.poll = some (e, rest))
    (found : s.elements.pointsToSet e.target = .ok known) {f : Fact}
    (holds : (s.delivered e rest known).Holds f) :
    s.Holds f ∨ s.ArrivedAt e.target (known.fresh e.objects) f := by
  have grow := grows_delivered head found
  have callGraph : (s.delivered e rest known).callGraph = s.callGraph := by
    obtain ⟨elements, worklist, stats, same, -⟩ := delivered_eq s e rest known
    rw [same]
  cases f with
  | pointsTo l o =>
    obtain ⟨p, x, place, object, arrived⟩ := holds
    have found' : (s.taken rest).elements.pointsToSet e.target = .ok known := found
    have contains := (contains_propagated found').1 arrived
    have sent : s.Sent p x := by
      rcases contains with old | ⟨rfl, mem⟩
      · exact Or.inl old
      · exact Or.inr ((awaits_of_poll head).2 (Or.inl ⟨rfl, mem⟩))
    obtain ⟨place', object'⟩ := grounded.readings_of_sent grow sent place object
    by_cases old : s.Contains p x
    · exact Or.inl ⟨p, x, place', object', old⟩
    · obtain ⟨rfl, mem⟩ := contains.resolve_left old
      refine Or.inr ⟨x, IdSet.mem_fresh.2 ⟨mem, fun listed => old ?_⟩, l, o, rfl, place', object'⟩
      exact ⟨known, ElementStore.pointsToSet_eq_ok_iff.1 found, listed⟩
  | reachable a =>
    have same : ∀ m ∈ (s.delivered e rest known).callGraph.reachable.toList,
        m ∈ s.callGraph.reachable.toList := by
      rw [callGraph]
      exact fun _ => id
    exact Or.inl (grounded.reachable_of_same grow same holds)
  | calls kind site a =>
    have same : ∀ e' ∈ (s.delivered e rest known).callGraph.edges.toList,
        e' ∈ s.callGraph.edges.toList := by
      rw [callGraph]
      exact fun _ => id
    exact Or.inl (grounded.calls_of_same grow same holds)

/-- A step finds nothing pending, or it delivers the head of the worklist and reacts to the objects
that were new. -/
theorem Grounded.step_cases (grounded : s.Grounded q) :
    s.worklist.toList = [] ∧ Solve.step s = .ok false s ∨
      ∃ e rest known l, s.worklist.poll = some (e, rest) ∧
        s.elements.pointsToSet e.target = .ok known ∧ s.locationAt? e.target = some l ∧
        (∀ x ∈ known.fresh e.objects, s.GroundedObject q e.target x) ∧
        Solve.step s =
          Solve.react e.target (known.fresh e.objects) (s.delivered e rest known) := by
  have run := Solve.step_run s
  cases head : s.worklist.poll with
  | none =>
    rw [head] at run
    exact Or.inl ⟨Worklist.poll_eq_none_iff.1 head, run⟩
  | some entry =>
    obtain ⟨e, rest⟩ := entry
    have listed : e ∈ s.worklist.toList := by
      rw [Worklist.toList_eq_cons_of_poll head]
      exact List.mem_cons_self
    obtain ⟨l, read⟩ := grounded.pending e listed
    obtain ⟨known, found⟩ := exists_pointsToSet read
    simp only [head, found] at run
    refine Or.inr ⟨e, rest, known, l, rfl, found, read, fun x mem => ?_, run⟩
    exact grounded.sent e.target x (Or.inr ⟨e, listed, rfl, (IdSet.mem_fresh.1 mem).1⟩)

end SolverState

namespace Solve

/-- An operation that consists of changes keeps the flow graph indexed. -/
theorem Meets.indexed {α : Type} {s : SolverState P} {x : Solve P α} {debt : α → List CsMethodId}
    {post : α → SolverState P → Prop} {bound n : Nat} {spent : SolverState P → Prop}
    (meets : Meets q s x debt post) (moves : MovesFrom bound spent s n x)
    (indexed : s.flow.Indexed) :
    Meets q s x debt fun a s' => post a s' ∧ s'.flow.Indexed := by
  cases run : x s with
  | ok a s' =>
    obtain ⟨grounded, progress, result⟩ := meets.ok run
    have indexed' := SolverState.indexed_of_changes (moves.ok run).changes indexed
    exact .of_ok run grounded progress ⟨result, indexed'⟩
  | error e s' =>
    obtain ⟨grounded, grow, excused⟩ := meets.error run
    exact .of_error run grounded grow excused

variable (lawful : P.Lawful q) {s : SolverState P}
include lawful

/-! ## Steps -/

/-- All objects that are new to a location are handled. -/
theorem react_meets (grounded : s.Grounded q) {p : PointerId} {l : Location} {delta : ObjectSet}
    (read : s.locationAt? p = some l) (sent : ∀ x ∈ delta, s.GroundedObject q p x) :
    Meets q s (react p delta) settled fun again s' =>
      again = true ∧ ∀ f, s.ArrivedAt p delta f → s'.Handled q f := by
  unfold react
  split
  · rename_i none
    refine .pure grounded ⟨rfl, fun f ⟨x, mem, _⟩ => ?_⟩
    exact absurd mem (IdSet.not_mem_of_isEmpty none)
  · obtain ⟨k, present, place⟩ := SolverState.locationAt?_eq_some_iff.1 read
    have known : s.elements.pointerKey p = .ok k := fetch_eq_ok_iff.2 present
    refine Meets.get (Meets.lookup known ?_)
    cases k with
    | var c v =>
      obtain ⟨t, var, trail, read', declared, reached⟩ := grounded.exists_varAt lawful.program present
      rw [read] at read'
      obtain rfl := Option.some.inj read'
      have each : Meets q s (delta.toList.forM (processObject c v)) settled fun _ s' =>
          ∀ x ∈ delta.toList, ∀ o, s.heapObj? x = some o →
            s'.Handled q (.pointsTo (.var t v) o) := by
        refine .forM grounded (fun x s' s'' grow done o object => grow.handled (done o object))
          fun x listed s' grounded' grow => ?_
        obtain ⟨l', o, place', object, held⟩ := sent x listed
        rw [read] at place'
        obtain rfl := Option.some.inj place'
        refine (processObject_meets lawful declared reached held grounded' (grow.trail? trail)
          (grow.heapObj? object)).imp fun _ s'' _ _ done o' object' => ?_
        rw [object] at object'
        rw [← Option.some.inj object']
        exact done
      refine each.bind fun _ s₁ grounded₁ _ done => .pure grounded₁ ⟨rfl, ?_⟩
      rintro f ⟨x, mem, l', o, rfl, at_, object⟩
      rw [read] at at_
      rw [← Option.some.inj at_]
      exact done x mem o object
    | _ =>
      -- only what arrives at a variable asks for anything
      refine .pure grounded ⟨rfl, ?_⟩
      rintro f ⟨x, mem, l', o, rfl, at_, object⟩
      rw [read] at at_
      rw [← Option.some.inj at_]
      cases l with
      | var t v => simp [SolverState.location?] at place
      | _ => trivial

/-- A step handles what it delivers; there is none when nothing is pending. -/
theorem step_meets (grounded : s.Grounded q) (indexed : s.flow.Indexed) :
    Meets q s step settled fun again s' => again = false → s'.worklist.toList = [] := by
  rcases grounded.step_cases with ⟨empty, run⟩ | ⟨e, rest, known, l, head, found, read, sent, run⟩
  · exact .of_ok run grounded (.refl _ s) fun _ => empty
  · have grow := SolverState.grows_delivered head found
    have reacted := react_meets lawful (grounded.delivered indexed head found)
      (grow.locationAt? read) fun x mem => grow.groundedObject (sent x mem)
    refine Meets.of_added run grow (grounded.holds_of_delivered head found) ?_
    refine reacted.imp fun again s' _ grow' ⟨more, handled⟩ => ⟨?_, ?_, ?_⟩
    · intro stopped
      rw [more] at stopped
      cases stopped
    · rintro f ⟨x, mem, l', o, rfl, at_, object⟩
      exact handled _ ⟨x, mem, l', o, rfl, grow.locationAt? at_, grow.heapObj? object⟩
    · rintro kind site b ⟨x, mem, l', o, same, -⟩
      cases same

/-- A run of steps ends when nothing is pending. -/
theorem stepAll_meets {bound : Nat} (fits : P.program.Fits bound) (rounds : Nat)
    {s : SolverState P} (grounded : s.Grounded q) (indexed : s.flow.Indexed) :
    Meets q s (stepAll rounds) settled fun _ s' => s'.worklist.toList = [] := by
  induction rounds generalizing s with
  | zero => exact .of_error rfl grounded (.refl s) trivial
  | succ rounds ih =>
    have first := (step_meets lawful grounded indexed).indexed (step_moves fits s) indexed
    refine Meets.bind first fun again s₁ grounded₁ _ ⟨stopped, indexed₁⟩ => ?_
    cases again with
    | false => exact .pure grounded₁ (stopped rfl)
    | true => exact ih grounded₁ indexed₁

/-! ## Runs -/

/-- An entry can run in the empty context. -/
theorem enter_meets (grounded : s.Grounded q) {m : MethodId} (listed : m ∈ P.program.entries) :
    Meets q s (enter m) settled fun _ s' => s'.Holds (.reachable ⟨[], m⟩) := by
  have trail : s.trail? .empty = some [] :=
    SolverState.trail?_eq_some_iff.2 ⟨[], s.contexts.first, rfl⟩
  refine (csMethod_meets grounded trail (.step (.entry listed) (by simp))).bind
    fun x s₁ grounded₁ grow₁ read => ?_
  have grow := grows_of_change (.entry s₁ x) rfl rfl
  have same : ∀ {f : Fact}, SolverState.Holds { s₁ with callGraph := s₁.callGraph.addEntry x } f →
      s₁.Holds f := grounded₁.holds_of_same grow (fun _ => id) (fun _ => id) id
  have entry : ∀ m' ∈ (s₁.callGraph.addEntry x).entries.toList, m' ∈ s₁.callGraph.entries.toList ∨
      SolverState.GroundedEntry { s₁ with callGraph := s₁.callGraph.addEntry x } m' := by
    intro m' mem
    refine (Table.mem_toList_intern.1 mem).imp_right fun same => ⟨m, listed, ?_⟩
    rw [same]
    exact grow.activation? read
  have run := modify_run s₁ fun s => { s with callGraph := s.callGraph.addEntry x }
  have mark : Meets q s₁ (modify fun s => { s with callGraph := s.callGraph.addEntry x } :
      Solve P Unit) settled fun _ s' => s'.activation? x = some ⟨[], m⟩ :=
    .of_ok run (grounded₁.grow grow (.of_parts grounded₁ rfl rfl (.of_eq rfl rfl rfl rfl)
        (.of_eq (fun _ _ => id) rfl rfl)
        ⟨entry, fun _ => Or.inl, fun _ mem => Or.inl ⟨mem, rfl⟩, fun _ => Or.inl⟩))
      ⟨grow, fun holds => Or.inl (same holds), fun holds => Or.inl (same holds)⟩ read
  refine Meets.bind mark fun _ s₂ grounded₂ _ read₂ => ?_
  refine (addReachable_meets lawful grounded₂ ⟨_, read₂⟩).imp fun _ s₃ _ grow₃ visited => ?_
  exact ⟨x, visited, grow₃.activation? read₂⟩

omit lawful in
theorem mark_meets (grounded : s.Grounded q) :
    Meets q s (modify fun s => { s with initialized := true } : Solve P Unit) settled
      fun _ _ => True := by
  have run := modify_run s fun s : SolverState P => { s with initialized := true }
  have grow := grows_of_change (.initialized s) rfl rfl
  exact .quiet run grounded grow (.of_same grounded rfl rfl rfl rfl rfl rfl) rfl id trivial

/-- All entries can run after a start, which fails if there are none. -/
theorem start_meets (grounded : s.Grounded q) :
    Meets q s start settled fun _ s' => s.initialized = false →
      P.program.entries ≠ [] ∧ ∀ m ∈ P.program.entries, s'.Holds (.reachable ⟨[], m⟩) := by
  refine Meets.get ?_
  split
  · rename_i started
    refine .pure grounded fun fresh => ?_
    rw [started] at fresh
    cases fresh
  · split
    · rename_i none
      exact .throw grounded (List.isEmpty_iff.1 none)
    · rename_i some
      refine Meets.bind (mark_meets grounded) fun _ s₁ grounded₁ _ _ => ?_
      have each : Meets q s₁ (P.program.entries.forM enter) settled fun _ s' =>
          ∀ m ∈ P.program.entries, s'.Holds (.reachable ⟨[], m⟩) :=
        .forM grounded₁ (fun m _ _ grow => grow.holds) fun m listed s' grounded' _ =>
          enter_meets lawful grounded' listed
      refine each.imp fun _ s₂ _ _ entered _ => ⟨?_, entered⟩
      exact fun none => some (List.isEmpty_iff.2 none)

omit lawful in
theorem recordSizes_meets (grounded : s.Grounded q) :
    Meets q s recordSizes settled fun _ s' =>
      s'.worklist = s.worklist ∧ ∀ f, s.Holds f → s'.Holds f :=
  .quiet (recordSizes_run s) grounded (grows_of_change (.recorded s) rfl rfl)
    (.of_same grounded rfl rfl rfl rfl rfl rfl) rfl id ⟨rfl, fun _ => id⟩

/-- A run from a state that has not been started ends with nothing pending and all entries running.
-/
theorem solve_meets {bound : Nat} (fits : P.program.Fits bound) (grounded : s.Grounded q)
    (indexed : s.flow.Indexed) :
    Meets q s solve settled fun _ s' => s'.worklist.toList = [] ∧ (s.initialized = false →
      P.program.entries ≠ [] ∧ ∀ m ∈ P.program.entries, s'.Holds (.reachable ⟨[], m⟩)) := by
  have first := (start_meets lawful grounded).indexed (start_moves fits s) indexed
  refine Meets.bind first fun _ s₁ grounded₁ _ ⟨entered, indexed₁⟩ => ?_
  refine (stepAll_meets lawful fits P.limit grounded₁ indexed₁).bind
    fun _ s₂ grounded₂ grow₂ empty => ?_
  refine (recordSizes_meets grounded₂).imp fun _ s₃ _ _ ⟨worklist, kept⟩ => ⟨?_, fun fresh => ?_⟩
  · rw [worklist]
    exact empty
  · obtain ⟨some, running⟩ := entered fresh
    exact ⟨some, fun m listed => kept _ (grow₂.holds (running m listed))⟩

end Solve

end PointsTo
