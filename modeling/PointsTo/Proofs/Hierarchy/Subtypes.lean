import PointsTo.Proofs.Analysis.Solution
import PointsTo.Proofs.Closure.Distance
import PointsTo.Proofs.Hierarchy.Walks

/-!
# Subtypes upwards and downwards

`isSubtype` follows every link upwards. `subtypes` follows links downwards, but chooses them by the
kind of the supertype: below an interface it looks at the classes and interfaces that list it, and
below a class at those that have it as superclass. Declarations do not check kinds. A class may have
an interface as superclass and may list a class among its interfaces, and such a link is followed
upwards only.
-/

namespace PointsTo

/-- A supertype link that suits the kind of the supertype: an interface is listed, and a class is the
superclass. -/
def Program.ExtendsInKind (p : Program) (c above : ClassId) : Prop :=
  ∃ decl sup, p.classes[c.index]? = some decl ∧ p.classes[above.index]? = some sup ∧
    if sup.isInterface then above ∈ decl.interfaces else decl.superclass = some above

theorem Program.ExtendsInKind.extends {p : Program} {c above : ClassId}
    (link : p.ExtendsInKind c above) : p.Extends c above := by
  obtain ⟨decl, sup, declared, -, listed⟩ := link
  simp only [Extends, supertypesOf, declared, ClassDecl.supertypes, List.mem_append,
    Option.mem_toList]
  split at listed
  · exact Or.inr listed
  · exact Or.inl listed

/-- Every superclass is a class, and every listed interface is an interface. -/
def Program.WellKinded (p : Program) : Prop :=
  ∀ decl ∈ p.classes.toList,
    (∀ c ∈ decl.superclass.toList, p.classes[c.index]?.map ClassDecl.isInterface = some false) ∧
      ∀ c ∈ decl.interfaces, p.classes[c.index]?.map ClassDecl.isInterface = some true

instance {p : Program} : Decidable p.WellKinded :=
  inferInstanceAs (Decidable (∀ decl ∈ p.classes.toList, _ ∧ _))

theorem Program.WellKinded.extendsInKind {p : Program} (kinds : p.WellKinded) {c above : ClassId}
    (link : p.Extends c above) : p.ExtendsInKind c above := by
  unfold Extends supertypesOf at link
  split at link
  · rename_i decl declared
    obtain ⟨superclass, interfaces⟩ :=
      kinds decl (Array.mem_toList_iff.2 (Array.mem_of_getElem? declared))
    rcases List.mem_append.1 link with listed | listed
    · obtain ⟨sup, present, kind⟩ := Option.map_eq_some_iff.1 (superclass above listed)
      refine ⟨decl, sup, declared, present, ?_⟩
      rw [if_neg (by simp [kind])]
      exact Option.mem_toList.1 listed
    · obtain ⟨sup, present, kind⟩ := Option.map_eq_some_iff.1 (interfaces above listed)
      refine ⟨decl, sup, declared, present, ?_⟩
      rw [if_pos kind]
      exact listed
  · cases link

namespace Hierarchy

variable {p : Program} {h h' : Hierarchy} {table table' : Array (List ClassId)}
  {a b c d : ClassId} {decl : ClassDecl}

/-! ## Link tables -/

/-- A class is in the row of another. -/
def Records (table : Array (List ClassId)) (below above : ClassId) : Prop :=
  ∃ row, fetch table above = .ok row ∧ below ∈ row

theorem mem_iff_records {row : List ClassId} (found : fetch table a = .ok row) :
    b ∈ row ↔ Records table b a := by
  simp [Records, found]

theorem records_link {below above : ClassId} (linked : link table below above = .ok table') :
    Records table' b a ↔ Records table b a ∨ a = above ∧ b = below := by
  obtain ⟨known, found, same⟩ := bind_eq_ok_iff.1 linked
  obtain rfl := pure_eq_ok_iff.1 same
  have present := fetch_eq_ok_iff.1 found
  have inside := (Array.getElem?_eq_some_iff.1 present).1
  simp only [Records, fetch_eq_ok_iff, Array.set!_eq_setIfInBounds, Array.getElem?_setIfInBounds]
  by_cases here : above = a
  · subst here
    simp only [if_pos inside, present, if_true, Option.some.injEq, exists_eq_left', List.mem_append,
      List.mem_singleton, true_and]
  · have apart : above.index ≠ a.index := by
      intro same
      exact here (congrArg Id.mk same)
    simp [apart, Ne.symm here]

theorem records_foldlM_link {below : ClassId} {l : List ClassId}
    (done : l.foldlM (link · below) table = .ok table') :
    Records table' b a ↔ Records table b a ∨ a ∈ l ∧ b = below := by
  have all : Records table' b a ↔ Records table b a ∨ ∃ above ∈ l, a = above ∧ b = below := by
    apply mem_iff_of_foldlM ?_ done
    intro above _ before after linked
    exact records_link linked
  rw [all]
  simp

/-- The links of one class go into the table of its superclass links, and into that of the interface
links of its own kind. -/
theorem records_of_addClass (added : h.addClass c decl = .ok h') :
    (Records h'.subclasses b a ↔ Records h.subclasses b a ∨ decl.superclass = some a ∧ b = c) ∧
      (Records h'.subinterfaces b a ↔ Records h.subinterfaces b a ∨
        (decl.isInterface = true ∧ a ∈ decl.interfaces) ∧ b = c) ∧
      (Records h'.implementors b a ↔ Records h.implementors b a ∨
        (decl.isInterface = false ∧ a ∈ decl.interfaces) ∧ b = c) := by
  obtain ⟨subclasses, found, rest⟩ := bind_eq_ok_iff.1 added
  have extended := records_foldlM_link (a := a) (b := b) found
  rw [Option.mem_toList] at extended
  cases kind : decl.isInterface with
  | true =>
    rw [kind, if_pos rfl] at rest
    obtain ⟨subinterfaces, found', same⟩ := bind_eq_ok_iff.1 rest
    obtain rfl := pure_eq_ok_iff.1 same
    have listed := records_foldlM_link (a := a) (b := b) found'
    simp [extended, listed]
  | false =>
    rw [kind, if_neg Bool.false_ne_true] at rest
    obtain ⟨implementors, found', same⟩ := bind_eq_ok_iff.1 rest
    obtain rfl := pure_eq_ok_iff.1 same
    have listed := records_foldlM_link (a := a) (b := b) found'
    simp [extended, listed]

/-- The hierarchy of a program before links are recorded. -/
def unlinked (p : Program) : Hierarchy :=
  ⟨p, Array.replicate p.classes.size [], Array.replicate p.classes.size [],
    Array.replicate p.classes.size []⟩

theorem not_records_replicate {n : Nat} : ¬Records (Array.replicate n []) b a := by
  intro listed
  obtain ⟨row, found, mem⟩ := listed
  rw [fetch_eq_ok_iff, Array.getElem?_replicate] at found
  split at found
  · cases found
    cases mem
  · cases found

/-- A link table that records a class under what its declaration lists has just these links. -/
theorem records_iff {tableOf : Hierarchy → Array (List ClassId)} {lists : ClassDecl → Prop}
    (step : ∀ h h' c decl, h.addClass c decl = .ok h' →
      (Records (tableOf h') b a ↔ Records (tableOf h) b a ∨ lists decl ∧ b = c))
    (start : ¬Records (tableOf (unlinked p)) b a)
    (found : ofProgram p = .ok h) :
    Records (tableOf h) b a ↔ ∃ decl, p.classes[b.index]? = some decl ∧ lists decl := by
  have all : Records (tableOf h) b a ↔ Records (tableOf (unlinked p)) b a ∨
      ∃ entry ∈ p.classes.toList.zipIdx, lists entry.1 ∧ b = ⟨entry.2⟩ := by
    apply mem_iff_of_foldlM ?_ found
    intro entry _ before after added
    exact step before after ⟨entry.2⟩ entry.1 added
  rw [all, or_iff_right start]
  constructor
  · intro listed
    obtain ⟨⟨decl, i⟩, mem, lists, rfl⟩ := listed
    have declared := List.mk_mem_zipIdx_iff_getElem?.1 mem
    rw [Array.getElem?_toList] at declared
    exact ⟨decl, declared, lists⟩
  · intro listed
    obtain ⟨decl, declared, lists⟩ := listed
    refine ⟨(decl, b.index), ?_, lists, rfl⟩
    rw [List.mk_mem_zipIdx_iff_getElem?, Array.getElem?_toList]
    exact declared

section OfProgram

variable (found : ofProgram p = .ok h)
include found

theorem records_subclasses : Records h.subclasses b a ↔
    ∃ decl, p.classes[b.index]? = some decl ∧ decl.superclass = some a := by
  apply records_iff ?_ not_records_replicate found
  intro h h' c decl added
  exact (records_of_addClass added).1

theorem records_subinterfaces : Records h.subinterfaces b a ↔
    ∃ decl, p.classes[b.index]? = some decl ∧ decl.isInterface = true ∧ a ∈ decl.interfaces := by
  apply records_iff ?_ not_records_replicate found
  intro h h' c decl added
  exact (records_of_addClass added).2.1

theorem records_implementors : Records h.implementors b a ↔
    ∃ decl, p.classes[b.index]? = some decl ∧ decl.isInterface = false ∧ a ∈ decl.interfaces := by
  apply records_iff ?_ not_records_replicate found
  intro h h' c decl added
  exact (records_of_addClass added).2.2

/-! ## Direct subtypes -/

/-- The direct subtypes are found through the links that suit the kind of the supertype. -/
theorem mem_iff_of_directSubtypesOf (same : h.program = p) {l : List ClassId}
    (direct : h.directSubtypesOf c = .ok l) : d ∈ l ↔ p.ExtendsInKind d c := by
  subst same
  obtain ⟨kind, asked, rest⟩ := bind_eq_ok_iff.1 direct
  obtain ⟨sup, lookup, same⟩ := bind_eq_ok_iff.1 asked
  obtain rfl := pure_eq_ok_iff.1 same
  have declared := fetch_eq_ok_iff.1 lookup
  simp only [Program.ExtendsInKind, declared, Option.some.injEq, exists_and_left, exists_eq_left']
  cases kind : sup.isInterface with
  | true =>
    rw [kind, if_pos rfl] at rest
    obtain ⟨implementors, found₁, rest⟩ := bind_eq_ok_iff.1 rest
    obtain ⟨subinterfaces, found₂, same⟩ := bind_eq_ok_iff.1 rest
    obtain rfl := pure_eq_ok_iff.1 same
    rw [List.mem_append, mem_iff_records found₁, mem_iff_records found₂, records_implementors found,
      records_subinterfaces found]
    simp only [if_true]
    constructor
    · intro listed
      rcases listed with ⟨decl, present, -, mem⟩ | ⟨decl, present, -, mem⟩
      · exact ⟨decl, present, mem⟩
      · exact ⟨decl, present, mem⟩
    · intro listed
      obtain ⟨decl, present, mem⟩ := listed
      cases own : decl.isInterface with
      | true => exact Or.inr ⟨decl, present, own, mem⟩
      | false => exact Or.inl ⟨decl, present, own, mem⟩
  | false =>
    rw [kind, if_neg Bool.false_ne_true] at rest
    rw [mem_iff_records rest, records_subclasses found]
    simp

end OfProgram

theorem extends_iff_exists_supertypesOf :
    h.program.Extends c a ↔ ∃ l, h.supertypesOf c = .ok l ∧ a ∈ l := by
  unfold Program.Extends Program.supertypesOf
  split
  · rename_i decl declared
    have lookup : h.program.classAt c = .ok decl := fetch_eq_ok_iff.2 declared
    have same : h.supertypesOf c = .ok decl.supertypes := by
      rw [supertypesOf, lookup]
      rfl
    simp [same]
  · rename_i missing
    constructor
    · intro listed
      cases listed
    · intro listed
      obtain ⟨l, found, -⟩ := listed
      obtain ⟨decl, lookup, -⟩ := bind_eq_ok_iff.1 found
      rw [fetch_eq_ok_iff.1 lookup] at missing
      cases missing

theorem declared_of_extends (link : h.program.Extends c a) :
    c.index < h.program.classes.size := by
  obtain ⟨l, found, -⟩ := extends_iff_exists_supertypesOf.1 link
  obtain ⟨decl, lookup, -⟩ := bind_eq_ok_iff.1 found
  exact exists_fetch_eq_ok_iff.1 ⟨decl, lookup⟩

/-! ## The queries -/

section Checked

variable (checked : h.program.Checked)
include checked

/-- Upwards all links are followed. -/
theorem exists_isSubtype (declared : d.index < h.program.classes.size) :
    ∃ answer, h.isSubtype d c = .ok answer ∧
      (answer = true ↔ Relation.ReflTransGen h.program.Extends d c) := by
  by_cases same : d = c
  · subst same
    refine ⟨true, ?_, iff_of_true rfl .refl⟩
    rw [isSubtype, if_pos rfl]
    rfl
  · have known : ∀ k : ClassId, k.index < h.program.classes.size →
        ∃ ks, h.supertypesOf k = .ok ks ∧ ∀ k' ∈ ks, k'.index < h.program.classes.size := by
      intro k inside
      obtain ⟨decl, lookup, present⟩ := exists_classAt inside
      refine ⟨decl.supertypes, ?_, checked.supertypes k.index decl present⟩
      rw [supertypesOf, lookup]
      rfl
    have start : ∀ k ∈ [d], k.index < h.program.classes.size := by simpa using declared
    obtain ⟨above, closed, expands, -⟩ := exists_closure (fun _ inside => inside) known start
    refine ⟨above.contains c, ?_, ?_⟩
    · rw [isSubtype, if_neg same, closed]
      rfl
    · rw [Table.contains_iff, expands.mem_toList_iff_pathTo]
      exact exists_pathTo_iff fun _ _ => extends_iff_exists_supertypesOf

theorem isSubtype_eq_ok_true_iff (declared : d.index < h.program.classes.size) :
    h.isSubtype d c = .ok true ↔ Relation.ReflTransGen h.program.Extends d c := by
  obtain ⟨answer, asked, positive⟩ := exists_isSubtype checked declared
  rw [asked, Except.ok.injEq, positive]

/-- Downwards only links that suit the kind of the supertype are followed. -/
theorem exists_subtypes_of_links (found : ofProgram h.program = .ok h)
    (declared : c.index < h.program.classes.size) :
    ∃ below, h.subtypes c = .ok (c :: below) ∧ (c :: below).Nodup ∧
      ∀ d, d ∈ c :: below ↔ Relation.ReflTransGen h.program.ExtendsInKind d c := by
  have rows := rows_of_ofProgram checked found
  have start : ∀ k ∈ [c], k.index < h.program.classes.size := by simpa using declared
  obtain ⟨t, closed, expands, -⟩ := exists_closure (fun _ inside => inside)
    (fun k inside => exists_directSubtypesOf rows inside) start
  have links : ∀ k k', h.program.ExtendsInKind k' k ↔
      ∃ ks, h.directSubtypesOf k = .ok ks ∧ k' ∈ ks := by
    intro k k'
    constructor
    · intro link
      obtain ⟨decl, sup, -, present, -⟩ := id link
      obtain ⟨ks, direct, -⟩ := exists_directSubtypesOf rows (Array.getElem?_eq_some_iff.1 present).1
      exact ⟨ks, direct, (mem_iff_of_directSubtypesOf found rfl direct).2 link⟩
    · intro listed
      obtain ⟨ks, direct, mem⟩ := listed
      exact (mem_iff_of_directSubtypesOf found rfl direct).1 mem
  obtain ⟨below, first⟩ := expands.grows
  have whole : t.toList = c :: below := by
    rw [← first, Table.toList_ofList]
    rfl
  refine ⟨below, ?_, ?_, ?_⟩
  · rw [subtypes, closed, ← whole]
    rfl
  · rw [← whole]
    exact Table.nodup_toList t
  · intro d
    rw [← whole, expands.mem_toList_iff_pathTo, exists_pathTo_iff links]
    exact Relation.reflTransGen_swap

/-- The queries agree when links that suit the kind of the supertype make up for all others. -/
theorem agree_iff (found : ofProgram h.program = .ok h) :
    (∀ d c l, d.index < h.program.classes.size → c.index < h.program.classes.size →
        h.subtypes c = .ok l → (d ∈ l ↔ h.isSubtype d c = .ok true)) ↔
      ∀ d c, h.program.Extends d c → Relation.ReflTransGen h.program.ExtendsInKind d c := by
  constructor
  · intro agree d c link
    have sub := declared_of_extends link
    have sup := checked.declared link
    obtain ⟨below, listed, -, members⟩ := exists_subtypes_of_links checked found sup
    rw [← members, agree d c _ sub sup listed, isSubtype_eq_ok_true_iff checked sub]
    exact .single link
  · intro inKind d c l sub sup listed
    obtain ⟨below, listed', -, members⟩ := exists_subtypes_of_links checked found sup
    obtain rfl := Except.ok.inj (listed.symm.trans listed')
    rw [members, isSubtype_eq_ok_true_iff checked sub]
    have suits : h.program.ExtendsInKind ≤ h.program.Extends := by
      intro d c link
      exact link.extends
    constructor
    · exact Relation.ReflTransGen.mono suits d c
    · exact Relation.reflTransGen_closed inKind d c

end Checked

/-- In a built program, `isSubtype` holds for what sequences of links lead to, whatever their kinds.
`subtypes` lists a class first and then what is below it through links that suit the kinds of their
supertypes, each once. So the two agree exactly when every link is made up of links of that sort. -/
theorem isSubtype_and_subtypes {p : Program} (built : p.Built) :
    ∃ h, Hierarchy.ofProgram p = .ok h ∧ h.program = p ∧
      (∀ d c : ClassId, d.index < p.classes.size → c.index < p.classes.size →
        ∃ answer, h.isSubtype d c = .ok answer ∧
          (answer = true ↔ Relation.ReflTransGen p.Extends d c)) ∧
      (∀ c : ClassId, c.index < p.classes.size →
        ∃ below, h.subtypes c = .ok (c :: below) ∧ (c :: below).Nodup ∧
          ∀ d, d ∈ c :: below ↔ Relation.ReflTransGen p.ExtendsInKind d c) ∧
      ((∀ d c l, d.index < p.classes.size → c.index < p.classes.size → h.subtypes c = .ok l →
          (d ∈ l ↔ h.isSubtype d c = .ok true)) ↔
        ∀ d c, p.Extends d c → Relation.ReflTransGen p.ExtendsInKind d c) := by
  obtain ⟨h, hierarchy, rfl⟩ := Hierarchy.exists_ofProgram built.wellFormed.toChecked
  have checked := built.wellFormed.toChecked
  refine ⟨h, hierarchy, rfl, ?_, ?_, agree_iff checked hierarchy⟩
  · intro d c sub _
    exact exists_isSubtype checked sub
  · intro c declared
    exact exists_subtypes_of_links checked hierarchy declared

/-- Two interfaces that extend a third, a class that lists both, and a subclass of it. -/
def layers : Program :=
  (Program.ofDeclarations? [
    .addInterface "I" [],
    .addInterface "J" [⟨0⟩],
    .addInterface "K" [⟨0⟩],
    .addClass "C" none false,
    .addImplements ⟨3⟩ ⟨1⟩,
    .addImplements ⟨3⟩ ⟨2⟩,
    .addClass "D" (some ⟨3⟩) false]).getD .empty

/-- Where kinds are kept apart, the two queries agree: the first interface has five subtypes. -/
theorem isSubtype_and_subtypes_layers : layers.Built ∧
    ∃ h, Hierarchy.ofProgram layers = .ok h ∧ h.isSubtype ⟨4⟩ ⟨0⟩ = .ok true ∧
      h.subtypes ⟨0⟩ = .ok [⟨0⟩, ⟨1⟩, ⟨2⟩, ⟨3⟩, ⟨4⟩] ∧
      ∀ d c l, d.index < 5 → c.index < 5 → h.subtypes c = .ok l →
        (d ∈ l ↔ h.isSubtype d c = .ok true) := by
  have built : layers.Built := Program.built_of_ofDeclarations? (by decide +kernel)
  obtain ⟨h, hierarchy, -, -, -, agree⟩ := isSubtype_and_subtypes built
  have tests : layers.passes (fun h =>
      (h.isSubtype ⟨4⟩ ⟨0⟩).toOption == some true &&
      (h.subtypes ⟨0⟩).toOption == some [⟨0⟩, ⟨1⟩, ⟨2⟩, ⟨3⟩, ⟨4⟩]) = true := by
    decide +kernel
  have passed := Program.test_of_passes hierarchy tests
  simp only [Bool.and_eq_true, beq_iff_eq, toOption_eq_some_iff] at passed
  have kinds : layers.WellKinded := by
    decide +kernel
  have size : layers.classes.size = 5 := by
    decide +kernel
  rw [size] at agree
  refine ⟨built, h, hierarchy, passed.1, passed.2, agree.2 ?_⟩
  intro d c link
  exact .single (kinds.extendsInKind link)

/-- A class that has an interface as superclass, and a class that lists a class as interface. -/
def mixedKinds : Program :=
  (Program.ofDeclarations? [
    .addInterface "I" [],
    .addClass "C" (some ⟨0⟩) false,
    .addClass "D" none false,
    .addClass "E" none false,
    .addImplements ⟨3⟩ ⟨2⟩]).getD .empty

/-- Both classes are subtypes of what they extend, and missing among its subtypes. -/
theorem exists_missing_subtypes : mixedKinds.Built ∧
    ∃ h, Hierarchy.ofProgram mixedKinds = .ok h ∧
      h.isSubtype ⟨1⟩ ⟨0⟩ = .ok true ∧ h.subtypes ⟨0⟩ = .ok [⟨0⟩] ∧
      h.isSubtype ⟨3⟩ ⟨2⟩ = .ok true ∧ h.subtypes ⟨2⟩ = .ok [⟨2⟩] := by
  have built : mixedKinds.Built := Program.built_of_ofDeclarations? (by decide +kernel)
  obtain ⟨h, hierarchy, -⟩ := Hierarchy.exists_ofProgram built.wellFormed.toChecked
  have tests : mixedKinds.passes (fun h =>
      (h.isSubtype ⟨1⟩ ⟨0⟩).toOption == some true &&
      (h.subtypes ⟨0⟩).toOption == some [⟨0⟩] &&
      (h.isSubtype ⟨3⟩ ⟨2⟩).toOption == some true &&
      (h.subtypes ⟨2⟩).toOption == some [⟨2⟩]) = true := by
    decide +kernel
  have passed := Program.test_of_passes hierarchy tests
  simp only [Bool.and_eq_true, beq_iff_eq, toOption_eq_some_iff] at passed
  obtain ⟨⟨⟨sub, subtypes⟩, sub'⟩, subtypes'⟩ := passed
  exact ⟨built, h, hierarchy, sub, subtypes, sub', subtypes'⟩

end Hierarchy

end PointsTo
