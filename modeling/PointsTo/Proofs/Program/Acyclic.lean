import Mathlib.Logic.Relation
import PointsTo.Proofs.Counting
import PointsTo.Proofs.Program.WellFormed

/-!
# No class is its own supertype

The walk over the supertype links lists every class after its supertypes. No class of such a list is
on a cycle of links, so a program that passes the checks has no cyclic inheritance. The classes of a
path of links differ, so a walk is never deeper than the number of classes.
-/

namespace PointsTo

namespace Program

variable {p : Program}

/-- A supertype link from a class upwards. -/
def Extends (p : Program) (c above : ClassId) : Prop :=
  above ∈ p.supertypesOf c

/-- No class is above itself. -/
def Acyclic (p : Program) : Prop :=
  ∀ c, ¬Relation.TransGen p.Extends c c

/-- Each class of a list comes before its supertypes. -/
def Settled (p : Program) : List ClassId → Prop
  | [] => True
  | c :: rest => (∀ above, p.Extends c above → above ∈ rest) ∧ p.Settled rest

theorem Settled.mem_of_extends {l : List ClassId} (settled : p.Settled l) {c above : ClassId}
    (mem : c ∈ l) (link : p.Extends c above) : above ∈ l := by
  induction l with
  | nil => cases mem
  | cons first rest ih =>
    apply List.mem_cons_of_mem
    rcases List.mem_cons.1 mem with rfl | later
    · exact settled.1 above link
    · exact ih settled.2 later

theorem Settled.mem_of_path {l : List ClassId} (settled : p.Settled l) {c above : ClassId}
    (mem : c ∈ l) (path : Relation.TransGen p.Extends c above) : above ∈ l := by
  induction path with
  | single link => exact settled.mem_of_extends mem link
  | tail _ link ih => exact settled.mem_of_extends ih link

/-- A cycle through the first class of a list would come back to it from the rest. -/
theorem Settled.not_cyclic {l : List ClassId} (settled : p.Settled l) {c : ClassId} (mem : c ∈ l) :
    ¬Relation.TransGen p.Extends c c := by
  induction l with
  | nil => cases mem
  | cons first rest ih =>
    intro cycle
    by_cases later : c ∈ rest
    · exact ih settled.2 later cycle
    · obtain rfl := (List.mem_cons.1 mem).resolve_right later
      obtain ⟨above, link, path⟩ := Relation.TransGen.head'_iff.1 cycle
      have inside : above ∈ rest := settled.1 above link
      rcases Relation.reflTransGen_iff_eq_or_transGen.1 path with same | path
      · exact later (same ▸ inside)
      · exact later (Settled.mem_of_path settled.2 inside path)

/-! ## The walk -/

theorem mem_classIds {c : ClassId} : c ∈ p.classIds ↔ c.index < p.classes.size := by
  simp only [classIds, List.mem_map, List.mem_range]
  constructor
  · rintro ⟨i, inside, rfl⟩
    exact inside
  · intro inside
    exact ⟨c.index, inside, rfl⟩

/-- A list of classes that has grown and is settled still. -/
structure Walked (p : Program) (finished finished' : List ClassId) : Prop where
  kept : finished ⊆ finished'
  settled : p.Settled finished'

/-- Walks from some classes, each left out if it is finished already. -/
theorem walked_foldlM {f : List ClassId → ClassId → Except ClassId (List ClassId)}
    {l finished finished' : List ClassId}
    (each : ∀ c ∈ l, ∀ before after, p.Settled before → f before c = .ok after →
      p.Walked before after ∧ c ∈ after)
    (settled : p.Settled finished) (done : l.foldlM f finished = .ok finished') :
    p.Walked finished finished' ∧ ∀ c ∈ l, c ∈ finished' := by
  induction l generalizing finished with
  | nil =>
    obtain rfl := pure_eq_ok_iff.1 done
    exact ⟨⟨List.Subset.refl _, settled⟩, by simp⟩
  | cons c l ih =>
    rw [List.foldlM_cons] at done
    obtain ⟨between, first, rest⟩ := bind_eq_ok_iff.1 done
    obtain ⟨walked, mem⟩ := each c List.mem_cons_self finished between settled first
    obtain ⟨later, all⟩ := ih (fun a ha => each a (List.mem_cons_of_mem c ha)) walked.settled rest
    refine ⟨⟨List.Subset.trans walked.kept later.kept, later.settled⟩, ?_⟩
    exact List.forall_mem_cons.2 ⟨later.kept mem, all⟩

theorem walked_walkSupertypes
    (declared : ∀ c above, p.Extends c above → above.index < p.classes.size) (depth : Nat)
    {path finished finished' : List ClassId} {c : ClassId} (nodup : (c :: path).Nodup)
    (inside : ∀ a ∈ c :: path, a.index < p.classes.size)
    (deep : p.classes.size ≤ depth + path.length) (settled : p.Settled finished)
    (done : p.walkSupertypes depth path finished c = .ok finished') :
    p.Walked finished finished' ∧ c ∈ finished' := by
  induction depth generalizing path finished finished' c with
  | zero =>
    have length := length_le_of_ids nodup inside
    rw [List.length_cons] at length
    omega
  | succ depth ih =>
    rw [walkSupertypes] at done
    obtain ⟨above, walk, last⟩ := bind_eq_ok_iff.1 done
    obtain rfl := pure_eq_ok_iff.1 last
    have each : ∀ a ∈ p.supertypesOf c, ∀ before after, p.Settled before →
        (if a ∈ c :: path then .error a
          else if a ∈ before then .ok before
          else p.walkSupertypes depth (c :: path) before a) = .ok after →
        p.Walked before after ∧ a ∈ after := by
      intro a link before after settled walk
      split at walk
      · cases walk
      · rename_i apart
        split at walk
        · rename_i known
          cases walk
          exact ⟨⟨List.Subset.refl _, settled⟩, known⟩
        · refine ih (List.nodup_cons.2 ⟨apart, nodup⟩) ?_ ?_ settled walk
          · exact List.forall_mem_cons.2 ⟨declared c a link, inside⟩
          · rw [List.length_cons]
            omega
    obtain ⟨walked, all⟩ := walked_foldlM each settled walk
    refine ⟨⟨List.Subset.trans walked.kept (List.subset_cons_self _ _), all, walked.settled⟩, ?_⟩
    exact List.mem_cons_self

/-- If the walk meets no class on its own path, there is no cycle. -/
theorem acyclic_of_cyclicClass?
    (declared : ∀ c above, p.Extends c above → above.index < p.classes.size)
    (none : p.cyclicClass? = none) : p.Acyclic := by
  intro c cycle
  dsimp only [cyclicClass?] at none
  split at none
  · rename_i finished walk
    have each : ∀ a ∈ p.classIds, ∀ before after, p.Settled before →
        (if a ∈ before then .ok before
          else p.walkSupertypes p.classes.size [] before a) = .ok after →
        p.Walked before after ∧ a ∈ after := by
      intro a listed before after settled walk
      split at walk
      · rename_i known
        cases walk
        exact ⟨⟨List.Subset.refl _, settled⟩, known⟩
      · refine walked_walkSupertypes declared p.classes.size (List.nodup_singleton a) ?_
          (Nat.le_add_right _ _) settled walk
        simpa using mem_classIds.1 listed
    have start : p.Settled [] := trivial
    obtain ⟨walked, all⟩ := walked_foldlM each start walk
    obtain ⟨below, -, link⟩ := Relation.TransGen.tail'_iff.1 cycle
    exact walked.settled.not_cyclic (all c (mem_classIds.2 (declared below c link))) cycle
  · cases none

/-- A class that the walk meets on its own path is the supertype of a class. -/
theorem exists_extends_of_walkSupertypes {depth : Nat} {path finished : List ClassId}
    {c met : ClassId} (walk : p.walkSupertypes depth path finished c = .error met) :
    ∃ below, p.Extends below met := by
  induction depth generalizing path finished c with
  | zero => cases walk
  | succ depth ih =>
    rw [walkSupertypes] at walk
    rcases bind_eq_error_iff.1 walk with failed | ⟨above, -, last⟩
    · obtain ⟨above, link, before, failed⟩ := exists_of_foldlM_eq_error failed
      split at failed
      · cases failed
        exact ⟨c, link⟩
      · split at failed
        · cases failed
        · exact ih failed
    · cases last

theorem exists_extends_of_cyclicClass? {met : ClassId} (cyclic : p.cyclicClass? = some met) :
    ∃ below, p.Extends below met := by
  dsimp only [cyclicClass?] at cyclic
  split at cyclic
  · cases cyclic
  · rename_i c walk
    obtain rfl := Option.some.inj cyclic
    obtain ⟨a, -, before, failed⟩ := exists_of_foldlM_eq_error walk
    split at failed
    · cases failed
    · exact exists_extends_of_walkSupertypes failed

/-! ## Built programs -/

/-- Links lead to declared classes if the supertypes of all classes are declared. -/
theorem declared_of_supertypes (supertypes : ∀ (i : Nat) (decl : ClassDecl),
      p.classes[i]? = some decl → ∀ c ∈ decl.supertypes, c.index < p.classes.size)
    {c above : ClassId} (link : p.Extends c above) : above.index < p.classes.size := by
  unfold Extends supertypesOf at link
  split at link
  · rename_i decl found
    exact supertypes c.index decl found above link
  · cases link

theorem Checked.declared (checked : p.Checked) {c above : ClassId} (link : p.Extends c above) :
    above.index < p.classes.size :=
  declared_of_supertypes checked.supertypes link

theorem cyclicClass?_of_check (h : p.check = .ok ()) : p.cyclicClass? = none := by
  obtain ⟨⟨⟩, classes, -⟩ := bind_eq_ok_iff.1 h
  obtain ⟨⟨⟩, -, rest⟩ := bind_eq_ok_iff.1 classes
  obtain ⟨⟨⟩, -, rest⟩ := bind_eq_ok_iff.1 rest
  split at rest
  · obtain ⟨decl, -, rejected⟩ := bind_eq_ok_iff.1 rest
    cases rejected
  · assumption

/-- A program that a front end builds has no cyclic inheritance. -/
theorem Built.acyclic (built : p.Built) : p.Acyclic := by
  obtain ⟨l, d, -, built⟩ := built
  obtain ⟨⟨⟩, checked, same⟩ := bind_eq_ok_iff.1 built
  obtain rfl := pure_eq_ok_iff.1 same
  have acyclic : d.program.Acyclic :=
    acyclic_of_cyclicClass? (fun _ _ link => (checked_of_check checked).declared link)
      (cyclicClass?_of_check checked)
  -- indexing leaves the classes as they are
  exact acyclic

end Program

end PointsTo
