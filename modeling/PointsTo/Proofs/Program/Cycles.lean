import PointsTo.Proofs.Program.Acyclic

/-!
# The search for cyclic inheritance

The walk over the supertype links is a search with a stack and a stage for every class: a class is
unvisited, or on the path from a root to the class that is looked at, or finished. Such a search ends,
and with the same class as the walk. The class that it ends with is above itself, and it ends without
one only if no class is above itself. So a class that is met again from another side is no cycle.
-/

namespace PointsTo

/-- How far a search has come with a class. -/
inductive Stage where
  | unvisited
  | onPath
  | finished
deriving DecidableEq, Repr

namespace Program

variable {p : Program} {roots path finished : List ClassId} {frames : List (ClassId × Nat)}
  {depth n : Nat} {c : ClassId} {verdict : Option ClassId}

/-- A search from some roots that ends with a verdict. A frame of the stack is a class of the path and
the position of the supertype of it that is looked at next. The innermost frame stands first. -/
inductive Searches (p : Program) :
    List ClassId → List (ClassId × Nat) → (ClassId → Stage) → Option ClassId → Prop where
  | done {stages : ClassId → Stage} : Searches p [] [] stages none
  | pass {roots : List ClassId} {root : ClassId} {stages : ClassId → Stage} {verdict : Option ClassId}
      (visited : stages root ≠ .unvisited) (rest : Searches p roots [] stages verdict) :
      Searches p (root :: roots) [] stages verdict
  | start {roots : List ClassId} {root : ClassId} {stages : ClassId → Stage} {verdict : Option ClassId}
      (unvisited : stages root = .unvisited)
      (rest : Searches p roots [(root, 0)] (Function.update stages root .onPath) verdict) :
      Searches p (root :: roots) [] stages verdict
  | meet {roots : List ClassId} {c above : ClassId} {n : Nat} {frames : List (ClassId × Nat)}
      {stages : ClassId → Stage} (link : (p.supertypesOf c)[n]? = some above)
      (onPath : stages above = .onPath) : Searches p roots ((c, n) :: frames) stages (some above)
  | descend {roots : List ClassId} {c above : ClassId} {n : Nat} {frames : List (ClassId × Nat)}
      {stages : ClassId → Stage} {verdict : Option ClassId}
      (link : (p.supertypesOf c)[n]? = some above) (unvisited : stages above = .unvisited)
      (rest : Searches p roots ((above, 0) :: (c, n + 1) :: frames)
        (Function.update stages above .onPath) verdict) :
      Searches p roots ((c, n) :: frames) stages verdict
  | skip {roots : List ClassId} {c above : ClassId} {n : Nat} {frames : List (ClassId × Nat)}
      {stages : ClassId → Stage} {verdict : Option ClassId}
      (link : (p.supertypesOf c)[n]? = some above) (finished : stages above = .finished)
      (rest : Searches p roots ((c, n + 1) :: frames) stages verdict) :
      Searches p roots ((c, n) :: frames) stages verdict
  | leave {roots : List ClassId} {c : ClassId} {n : Nat} {frames : List (ClassId × Nat)}
      {stages : ClassId → Stage} {verdict : Option ClassId}
      (last : (p.supertypesOf c)[n]? = none)
      (rest : Searches p roots frames (Function.update stages c .finished) verdict) :
      Searches p roots ((c, n) :: frames) stages verdict

/-! ## Stages -/

/-- The stage of a class when a walk has a path and some finished classes. -/
def stageOf (path finished : List ClassId) (c : ClassId) : Stage :=
  if c ∈ path then .onPath else if c ∈ finished then .finished else .unvisited

theorem stageOf_of_mem_path (mem : c ∈ path) : stageOf path finished c = .onPath := by
  simp [stageOf, mem]

theorem stageOf_of_mem_finished (apart : c ∉ path) (mem : c ∈ finished) :
    stageOf path finished c = .finished := by
  simp [stageOf, apart, mem]

theorem stageOf_of_not_mem (apart : c ∉ path) (new : c ∉ finished) :
    stageOf path finished c = .unvisited := by
  simp [stageOf, apart, new]

theorem update_stageOf_onPath :
    Function.update (stageOf path finished) c .onPath = stageOf (c :: path) finished := by
  funext a
  by_cases same : a = c
  · subst same
    simp [stageOf]
  · simp [stageOf, same]

theorem update_stageOf_finished (apart : c ∉ path) :
    Function.update (stageOf (c :: path) finished) c .finished = stageOf path (c :: finished) := by
  funext a
  by_cases same : a = c
  · subst same
    simp [stageOf, apart]
  · simp [stageOf, same]

/-! ## The walk is such a search -/

/-- The walk from a supertype, with what is on the path and finished looked up before. -/
def walkAbove (p : Program) (depth : Nat) (path finished : List ClassId) (above : ClassId) :
    Except ClassId (List ClassId) :=
  if above ∈ path then .error above
  else if above ∈ finished then .ok finished
  else p.walkSupertypes depth path finished above

theorem walkSupertypes_succ : p.walkSupertypes (depth + 1) path finished c = (do
    let finished ← (p.supertypesOf c).foldlM (p.walkAbove depth (c :: path)) finished
    return c :: finished) := rfl

/-- A search that is where a part of the walk ends comes to the verdict, be it that the part ends
well or that it meets a class on its path. -/
structure Continues (p : Program) (roots : List ClassId) (frames : List (ClassId × Nat))
    (path : List ClassId) (walk : Except ClassId (List ClassId)) (verdict : Option ClassId) :
    Prop where
  ends : ∀ finished, walk = .ok finished → p.Searches roots frames (stageOf path finished) verdict
  meets : ∀ c, walk = .error c → verdict = some c

/-- The search continues after the first part of a walk if it continues after both. -/
theorem Continues.of_bind {walk : Except ClassId (List ClassId)}
    {f : List ClassId → Except ClassId (List ClassId)} {roots' path' : List ClassId}
    {frames' : List (ClassId × Nat)} (both : p.Continues roots frames path (walk >>= f) verdict)
    (rest : ∀ finished, p.Continues roots frames path (f finished) verdict →
      p.Searches roots' frames' (stageOf path' finished) verdict) :
    p.Continues roots' frames' path' walk verdict := by
  constructor
  · intro finished first
    subst first
    exact rest finished both
  · intro c met
    apply both.meets
    rw [met]
    rfl

/-- The search through the supertypes of a class from a position on. -/
theorem searches_of_links (apart : c ∉ path)
    (each : ∀ above ∈ p.supertypesOf c, above ∉ c :: path → ∀ n finished,
      p.Continues roots ((c, n) :: frames) (c :: path)
        (p.walkSupertypes depth (c :: path) finished above) verdict →
      p.Searches roots ((above, 0) :: (c, n) :: frames) (stageOf (above :: c :: path) finished)
        verdict)
    {l : List ClassId} (links : (p.supertypesOf c).drop n = l)
    (goes : p.Continues roots frames path
      (do return c :: (← l.foldlM (p.walkAbove depth (c :: path)) finished)) verdict) :
    p.Searches roots ((c, n) :: frames) (stageOf (c :: path) finished) verdict := by
  induction l generalizing n finished with
  | nil =>
    apply Searches.leave
    · exact List.getElem?_eq_none (List.drop_eq_nil_iff.1 links)
    · rw [update_stageOf_finished apart]
      exact goes.ends (c :: finished) rfl
  | cons above l ih =>
    have link : (p.supertypesOf c)[n]? = some above := by
      rw [← List.head?_drop, links]
      rfl
    have later : (p.supertypesOf c).drop (n + 1) = l := by
      rw [← List.tail_drop, links]
      rfl
    rw [List.foldlM_cons] at goes
    by_cases met : above ∈ c :: path
    · rw [walkAbove, if_pos met] at goes
      rw [goes.meets above rfl]
      exact .meet link (stageOf_of_mem_path met)
    · rw [walkAbove, if_neg met] at goes
      by_cases known : above ∈ finished
      · rw [if_pos known] at goes
        exact .skip link (stageOf_of_mem_finished met known) (ih later goes)
      · rw [if_neg known] at goes
        apply Searches.descend link (stageOf_of_not_mem met known)
        rw [update_stageOf_onPath]
        apply each above (List.mem_of_getElem? link) met
        simp only [bind_assoc] at goes
        apply goes.of_bind
        intro finished' goes'
        exact ih later goes'

section Declared

variable (declared : ∀ c above, p.Extends c above → above.index < p.classes.size)
include declared

/-- The search from a class on, with the classes of the path below it. -/
theorem searches_of_walkSupertypes (nodup : (c :: path).Nodup)
    (inside : ∀ a ∈ c :: path, a.index < p.classes.size)
    (deep : p.classes.size ≤ depth + path.length)
    (goes : p.Continues roots frames path (p.walkSupertypes depth path finished c) verdict) :
    p.Searches roots ((c, 0) :: frames) (stageOf (c :: path) finished) verdict := by
  induction depth generalizing path finished c frames with
  | zero =>
    have length := length_le_of_ids nodup inside
    rw [List.length_cons] at length
    omega
  | succ depth ih =>
    rw [walkSupertypes_succ] at goes
    apply searches_of_links (List.nodup_cons.1 nodup).1 ?_ List.drop_zero goes
    intro above listed apart n finished' goes'
    apply ih
    · exact List.nodup_cons.2 ⟨apart, nodup⟩
    · exact List.forall_mem_cons.2 ⟨declared c above listed, inside⟩
    · rw [List.length_cons]
      omega
    · exact goes'

/-- The search from some roots on. -/
theorem searches_of_roots (inside : ∀ c ∈ roots, c.index < p.classes.size)
    (goes : p.Continues [] [] []
      (roots.foldlM (fun finished c => if c ∈ finished then .ok finished
        else p.walkSupertypes p.classes.size [] finished c) finished) verdict) :
    p.Searches roots [] (stageOf [] finished) verdict := by
  induction roots generalizing finished with
  | nil => exact goes.ends finished rfl
  | cons root roots ih =>
    rw [List.forall_mem_cons] at inside
    rw [List.foldlM_cons] at goes
    by_cases known : root ∈ finished
    · rw [if_pos known] at goes
      apply Searches.pass ?_ (ih inside.2 goes)
      rw [stageOf_of_mem_finished List.not_mem_nil known]
      simp
    · rw [if_neg known] at goes
      apply Searches.start (stageOf_of_not_mem List.not_mem_nil known)
      rw [update_stageOf_onPath]
      apply searches_of_walkSupertypes declared (List.nodup_singleton root) (by simpa using inside.1)
        (Nat.le_add_right _ _)
      apply goes.of_bind
      intro finished' goes'
      exact ih inside.2 goes'

/-- The search from all classes ends, and with the class that the walk ends with. -/
theorem searches_cyclicClass? :
    p.Searches p.classIds [] (fun _ => .unvisited) p.cyclicClass? := by
  have start : stageOf [] [] = fun _ => .unvisited := by
    funext c
    exact stageOf_of_not_mem List.not_mem_nil List.not_mem_nil
  rw [← start]
  apply searches_of_roots declared
  · intro c listed
    exact mem_classIds.1 listed
  · constructor
    · intro finished walk
      rw [cyclicClass?, walk]
      exact .done
    · intro c walk
      rw [cyclicClass?, walk]

end Declared

/-! ## The class that is met -/

/-- A class that is met on a path of links is above itself. -/
theorem cyclic_of_walkSupertypes {met : ClassId}
    (below : ∀ a ∈ path, Relation.TransGen p.Extends a c)
    (walk : p.walkSupertypes depth path finished c = .error met) :
    Relation.TransGen p.Extends met met := by
  induction depth generalizing path finished c with
  | zero => cases walk
  | succ depth ih =>
    rw [walkSupertypes_succ] at walk
    rcases bind_eq_error_iff.1 walk with failed | ⟨finished', -, last⟩
    · obtain ⟨above, link, before, failed⟩ := exists_of_foldlM_eq_error failed
      have up : ∀ a ∈ c :: path, Relation.TransGen p.Extends a above := by
        rw [List.forall_mem_cons]
        constructor
        · exact .single link
        · intro a mem
          exact (below a mem).tail link
      unfold walkAbove at failed
      split at failed
      · rename_i onPath
        obtain rfl := Except.error.inj failed
        exact up above onPath
      · split at failed
        · cases failed
        · exact ih up failed
    · cases last

theorem cyclic_of_cyclicClass? {met : ClassId} (cyclic : p.cyclicClass? = some met) :
    Relation.TransGen p.Extends met met := by
  dsimp only [cyclicClass?] at cyclic
  split at cyclic
  · cases cyclic
  · rename_i c walk
    obtain rfl := Option.some.inj cyclic
    obtain ⟨root, -, before, failed⟩ := exists_of_foldlM_eq_error walk
    split at failed
    · cases failed
    · apply cyclic_of_walkSupertypes ?_ failed
      simp

/-! ## The check -/

section Declared

variable (supertypes : ∀ (i : Nat) (decl : ClassDecl), p.classes[i]? = some decl →
    ∀ c ∈ decl.supertypes, c.index < p.classes.size)
  (root : ∀ c, p.objectClass = some c → c.index < p.classes.size)
include supertypes root

/-- When all identifiers of classes are in range, the check is the search for a cycle. -/
theorem checkClasses_eq : p.checkClasses = (match p.cyclicClass? with
    | some c => do reject (.cyclicInheritance (← p.classAt c).name)
    | none => .ok ()) := by
  have links : (p.classes.toList.forM fun decl =>
      decl.supertypes.forM (p.checkClass (.classNamed decl.name))) = .ok () := by
    apply forM_eq_ok_iff.2
    intro decl listed
    obtain ⟨i, found⟩ := Array.mem_iff_getElem?.1 (Array.mem_toList_iff.1 listed)
    apply forM_eq_ok_iff.2
    intro c mem
    exact checkClass_eq_ok_iff.2 (supertypes i decl found c mem)
  have object : p.objectClass.toList.forM (p.checkClass .objectClass) = .ok () := by
    apply forM_eq_ok_iff.2
    intro c mem
    exact checkClass_eq_ok_iff.2 (root c (Option.mem_toList.1 mem))
  rw [checkClasses, links, object]
  rfl

theorem checkClasses_of_none (none : p.cyclicClass? = none) : p.checkClasses = .ok () := by
  rw [checkClasses_eq supertypes root, none]

/-- A class that the search ends with is reported by its name. -/
theorem checkClasses_of_cyclicClass? (cyclic : p.cyclicClass? = some c) :
    ∃ decl, p.classAt c = .ok decl ∧ p.checkClasses = reject (.cyclicInheritance decl.name) := by
  obtain ⟨below, link⟩ := exists_extends_of_cyclicClass? cyclic
  have inside : c.index < p.classes.size := declared_of_supertypes supertypes link
  obtain ⟨decl, lookup⟩ : ∃ decl, p.classAt c = .ok decl := exists_fetch_eq_ok_iff.2 inside
  refine ⟨decl, lookup, ?_⟩
  rw [checkClasses_eq supertypes root, cyclic]
  simp only [lookup]
  rfl

/-- The check for cyclic inheritance is a search that ends. Among identifiers in range it passes
exactly when no class is above itself, and reports a cycle exactly when some class is. The class that
it reports is above itself. -/
theorem cyclicInheritance_iff_cyclic :
    p.Searches p.classIds [] (fun _ => .unvisited) p.cyclicClass? ∧
      (p.checkClasses = .ok () ↔ p.Acyclic) ∧
      ((∃ name, p.checkClasses = reject (.cyclicInheritance name)) ↔
        ∃ c, Relation.TransGen p.Extends c c) ∧
      ∀ name, p.checkClasses = reject (.cyclicInheritance name) →
        ∃ c decl, p.cyclicClass? = some c ∧ p.classAt c = .ok decl ∧ decl.name = name ∧
          Relation.TransGen p.Extends c c := by
  have declared : ∀ c above, p.Extends c above → above.index < p.classes.size := by
    intro c above link
    exact declared_of_supertypes supertypes link
  refine ⟨searches_cyclicClass? declared, ?_⟩
  cases search : p.cyclicClass? with
  | none =>
    have passed := checkClasses_of_none supertypes root search
    have acyclic := acyclic_of_cyclicClass? declared search
    have silent : ∀ name, p.checkClasses ≠ reject (.cyclicInheritance name) := by
      intro name rejected
      rw [passed] at rejected
      cases rejected
    refine ⟨iff_of_true passed acyclic, iff_of_false ?_ ?_, ?_⟩
    · intro rejected
      obtain ⟨name, rejected⟩ := rejected
      exact silent name rejected
    · intro cycle
      obtain ⟨c, cycle⟩ := cycle
      exact acyclic c cycle
    · intro name rejected
      exact absurd rejected (silent name)
  | some met =>
    obtain ⟨decl, lookup, rejected⟩ := checkClasses_of_cyclicClass? supertypes root search
    have cycle := cyclic_of_cyclicClass? search
    refine ⟨iff_of_false ?_ ?_, iff_of_true ⟨decl.name, rejected⟩ ⟨met, cycle⟩, ?_⟩
    · intro passed
      rw [rejected] at passed
      cases passed
    · intro acyclic
      exact acyclic met cycle
    · intro name same
      rw [rejected] at same
      cases same
      exact ⟨met, decl, rfl, lookup, rfl, cycle⟩

end Declared

/-- A class with two interfaces that extend a third, one of them listed twice. Behind them there is a
class that lists an interface whose superclass is the class. -/
def diamondAndCycle : Program :=
  { Program.empty with
    classes := #[
      ⟨"A", none, [⟨1⟩, ⟨2⟩, ⟨1⟩], false, false, [], []⟩,
      ⟨"I", none, [⟨3⟩], true, true, [], []⟩,
      ⟨"J", none, [⟨3⟩], true, true, [], []⟩,
      ⟨"K", none, [], true, true, [], []⟩,
      ⟨"B", some ⟨0⟩, [⟨5⟩], false, false, [], []⟩,
      ⟨"L", some ⟨4⟩, [⟨3⟩], true, true, [], []⟩]
    objectClass := some ⟨0⟩ }

/-- The diamond is passed over, and the cycle behind it is reported. -/
theorem cyclicInheritance_diamondAndCycle :
    (∀ (i : Nat) (decl : ClassDecl), diamondAndCycle.classes[i]? = some decl →
      ∀ c ∈ decl.supertypes, c.index < diamondAndCycle.classes.size) ∧
    diamondAndCycle.Searches diamondAndCycle.classIds [] (fun _ => .unvisited) (some ⟨4⟩) ∧
    diamondAndCycle.checkClasses = reject (.cyclicInheritance "B") ∧
    Relation.TransGen diamondAndCycle.Extends ⟨4⟩ ⟨4⟩ := by
  have supertypes : ∀ (i : Nat) (decl : ClassDecl), diamondAndCycle.classes[i]? = some decl →
      ∀ c ∈ decl.supertypes, c.index < diamondAndCycle.classes.size := by
    have all : ∀ decl ∈ diamondAndCycle.classes, ∀ c ∈ decl.supertypes, c.index < 6 := by
      decide +kernel
    intro i decl found
    exact all decl (Array.mem_of_getElem? found)
  have root : ∀ c, diamondAndCycle.objectClass = some c → c.index < diamondAndCycle.classes.size := by
    intro c same
    cases same
    decide
  obtain ⟨searches, -, -, reported⟩ := cyclicInheritance_iff_cyclic supertypes root
  have rejected : diamondAndCycle.checkClasses = reject (.cyclicInheritance "B") := by
    decide +kernel
  obtain ⟨c, decl, search, -, -, cycle⟩ := reported "B" rejected
  have met : diamondAndCycle.cyclicClass? = some ⟨4⟩ := by
    decide +kernel
  rw [met] at search searches
  obtain rfl := Option.some.inj search
  exact ⟨supertypes, searches, rejected, cycle⟩

end Program

end PointsTo
