import PointsTo.Proofs.Closure.Queue
import PointsTo.Proofs.Hierarchy.Defaults

/-!
# What dispatch finds

Dispatch is a search in two lists. The first is the superclass chain of the class. The second has the
interfaces of the chain in the order of a walk with a queue, which starts from the interfaces that the
classes of the chain list. Of either list the first class with a concrete method is taken, and the
second list counts only when the first has none.
-/

namespace PointsTo

namespace Hierarchy

variable {h : Hierarchy} {s : Subsignature} {l chain : List ClassId} {m : MethodId}

/-- The first class of a list that has a concrete method has this one. -/
def IsFirstConcrete (h : Hierarchy) (s : Subsignature) (l : List ClassId) (m : MethodId) : Prop :=
  ∃ before c after, l = before ++ c :: after ∧ h.Concrete s c m ∧
    ∀ a ∈ before, ∀ m', ¬h.Concrete s a m'

/-- What is found among the classes of a chain and its interfaces, the latter in some order. -/
structure Finds (h : Hierarchy) (s : Subsignature) (chain interfaces : List ClassId)
    (found : Option MethodId) : Prop where
  onChain : (∃ a ∈ chain, ∃ m, h.Concrete s a m) →
    ∃ m, found = some m ∧ h.IsFirstConcrete s chain m
  onInterfaces : (∀ a ∈ chain, ∀ m, ¬h.Concrete s a m) →
    ∀ m, found = some m ↔ h.IsFirstConcrete s interfaces m
  nowhere : found = none ↔ ∀ a, a ∈ chain ∨ a ∈ interfaces → ∀ m, ¬h.Concrete s a m

/-! ## Searches -/

theorem Concrete.unique {c : ClassId} {m' : MethodId} (first : h.Concrete s c m)
    (second : h.Concrete s c m') : m = m' := by
  have same := first.1
  rw [second.1] at same
  exact (Option.some.inj (Except.ok.inj same)).symm

theorem not_isFirstConcrete_nil : ¬h.IsFirstConcrete s [] m := by
  intro first
  obtain ⟨before, c, after, split, -⟩ := first
  simp at split

/-- A class with a concrete method comes first. -/
theorem isFirstConcrete_cons_iff_of_concrete {c : ClassId} {m' : MethodId}
    (concrete : h.Concrete s c m') : h.IsFirstConcrete s (c :: l) m ↔ m' = m := by
  constructor
  · intro first
    obtain ⟨before, c', after, split, concrete', earlier⟩ := first
    cases before with
    | nil =>
      obtain ⟨rfl, -⟩ := List.cons.inj split
      exact concrete.unique concrete'
    | cons b before =>
      obtain ⟨rfl, -⟩ := List.cons.inj split
      exact absurd concrete (earlier c List.mem_cons_self m')
  · intro same
    subst same
    exact ⟨[], c, l, rfl, concrete, by simp⟩

/-- A class without a concrete method does not count. -/
theorem isFirstConcrete_cons_iff_of_none {c : ClassId} (none : ∀ m, ¬h.Concrete s c m) :
    h.IsFirstConcrete s (c :: l) m ↔ h.IsFirstConcrete s l m := by
  constructor
  · intro first
    obtain ⟨before, c', after, split, concrete, earlier⟩ := first
    cases before with
    | nil =>
      obtain ⟨rfl, rfl⟩ := List.cons.inj split
      exact absurd concrete (none m)
    | cons b before =>
      obtain ⟨rfl, rfl⟩ := List.cons.inj split
      exact ⟨before, c', after, rfl, concrete, (List.forall_mem_cons.1 earlier).2⟩
  · intro first
    obtain ⟨before, c', after, rfl, concrete, earlier⟩ := first
    exact ⟨c :: before, c', after, rfl, concrete, List.forall_mem_cons.2 ⟨none, earlier⟩⟩

/-- A search that ends well finds the method of the first class with a concrete one. -/
theorem eq_some_iff_of_firstConcrete {found : Option MethodId}
    (search : h.firstConcrete s l = .ok found) : found = some m ↔ h.IsFirstConcrete s l m := by
  induction l with
  | nil =>
    obtain rfl := Except.ok.inj search
    simp [not_isFirstConcrete_nil]
  | cons c l ih =>
    rcases firstConcrete_cons search with ⟨m', concrete, rfl⟩ | ⟨none, rest⟩
    · rw [isFirstConcrete_cons_iff_of_concrete concrete, Option.some.injEq]
    · rw [isFirstConcrete_cons_iff_of_none none]
      exact ih rest

/-- A search finds nothing exactly when no class has a concrete method. -/
theorem eq_none_iff_of_firstConcrete {found : Option MethodId}
    (search : h.firstConcrete s l = .ok found) :
    found = none ↔ ∀ a ∈ l, ∀ m, ¬h.Concrete s a m := by
  constructor
  · intro same
    subst same
    exact not_concrete_of_firstConcrete search
  · intro none
    cases found with
    | none => rfl
    | some m =>
      obtain ⟨i, a, listed, concrete, -⟩ := exists_of_firstConcrete search
      exact absurd concrete (none a (List.mem_of_getElem? listed) m)

/-! ## Dispatch -/

/-- What is found on the chain is found, whatever the interfaces are. -/
theorem finds_of_onChain {interfaces : List ClassId}
    (search : h.firstConcrete s chain = .ok (some m)) : h.Finds s chain interfaces (some m) := by
  have first := (eq_some_iff_of_firstConcrete search).1 rfl
  obtain ⟨before, c, after, split, concrete, -⟩ := id first
  have listed : c ∈ chain := by simp [split]
  constructor
  · intro _
    exact ⟨m, rfl, first⟩
  · intro none
    exact absurd concrete (none c listed m)
  · constructor
    · intro same
      cases same
    · intro none
      exact absurd concrete (none c (Or.inl listed) m)

/-- If the chain has nothing, the interfaces are searched. -/
theorem finds_of_onInterfaces {interfaces : List ClassId} {found : Option MethodId}
    (none : ∀ a ∈ chain, ∀ m, ¬h.Concrete s a m)
    (search : h.firstConcrete s interfaces = .ok found) : h.Finds s chain interfaces found := by
  constructor
  · intro present
    obtain ⟨a, listed, m, concrete⟩ := present
    exact absurd concrete (none a listed m)
  · intro _ m
    exact eq_some_iff_of_firstConcrete search
  · rw [eq_none_iff_of_firstConcrete search]
    constructor
    · intro nowhere a listed
      exact listed.elim (none a) (nowhere a)
    · intro nowhere a listed
      exact nowhere a (Or.inr listed)

section WellFormed

variable (wf : h.program.WellFormed) (acyclic : h.program.Acyclic) {c : ClassId}
include wf acyclic

/-- The two lists that dispatch on a declared class searches are the same for all subsignatures. -/
theorem exists_finds (declared : c.index < h.program.classes.size) :
    ∃ chain seeds interfaces, h.chain c = .ok chain ∧ h.Chain c chain ∧
      h.chainInterfaces chain = .ok seeds ∧ Visits h.interfacesOf [] seeds interfaces ∧
      (∀ i, i ∈ interfaces ↔ ∃ n, h.Inherits chain n i) ∧
      ∀ s, ∃ found, h.dispatch c s = .ok found ∧ h.Finds s chain interfaces found := by
  obtain ⟨chain, seeds, table, walked, whole, listed, expands, search⟩ :=
    exists_walks wf acyclic declared
  refine ⟨chain, seeds, table.toList, walked, whole, listed, expands.visits_of_seeds, ?_, ?_⟩
  · intro i
    rw [expands.mem_toList_iff_pathTo]
    simp only [Inherits, listed, Except.ok.injEq, exists_eq_left']
  · intro s
    obtain ⟨found, dispatched, -⟩ := exists_dispatch wf declared s
    refine ⟨found, dispatched, ?_⟩
    by_cases none : ∀ a ∈ chain, ∀ m, ¬h.Concrete s a m
    · apply finds_of_onInterfaces none
      rw [← search s, ← dispatch_eq_dispatchDefault wf declared walked none]
      exact dispatched
    · obtain ⟨chain', walked', onChain⟩ := exists_chainFrom wf (h.program.classes.size + 1) declared
      obtain rfl : chain = chain' := Except.ok.inj (walked.symm.trans walked')
      obtain ⟨first, found', -⟩ := exists_firstConcrete wf s onChain
      rw [dispatch, walked] at dispatched
      simp only [bind, Except.bind, found'] at dispatched
      cases first with
      | none => exact absurd (not_concrete_of_firstConcrete found') none
      | some m =>
        obtain rfl := pure_eq_ok_iff.1 dispatched
        exact finds_of_onChain found'

end WellFormed

/-- For a class of a built program, dispatch takes the first concrete method on the superclass chain.
If the chain has none, it takes the first one among the interfaces of the chain, in the order in which
a queue comes upon them that starts with the interfaces listed along the chain. It finds nothing
exactly when no class of the chain and no interface of the chain has a concrete method. -/
theorem first_of_dispatch {p : Program} (built : p.Built) :
    ∃ h, Hierarchy.ofProgram p = .ok h ∧ h.program = p ∧
      ∀ (c : ClassId) (s : Subsignature), c.index < p.classes.size →
        ∃ chain seeds interfaces found, h.chain c = .ok chain ∧ h.Chain c chain ∧
          h.chainInterfaces chain = .ok seeds ∧ Visits h.interfacesOf [] seeds interfaces ∧
          (∀ i, i ∈ interfaces ↔ ∃ n, h.Inherits chain n i) ∧
          h.dispatch c s = .ok found ∧ h.Finds s chain interfaces found := by
  obtain ⟨h, hierarchy, rfl⟩ := Hierarchy.exists_ofProgram built.wellFormed.toChecked
  refine ⟨h, hierarchy, rfl, ?_⟩
  intro c s declared
  obtain ⟨chain, seeds, interfaces, walked, whole, listed, visits, inherited, finds⟩ :=
    exists_finds built.wellFormed built.acyclic declared
  obtain ⟨found, dispatched, first⟩ := finds s
  exact ⟨chain, seeds, interfaces, found, walked, whole, listed, visits, inherited, dispatched, first⟩

/-- A class whose superclass redeclares as abstract what its own superclass implements. The class
lists an interface that redeclares a default method as abstract, and one that inherits the default. -/
def abstractOverrides : Program :=
  (Program.ofDeclarations? [
    .addClass "Base" none false,
    .addClass "Mid" (some ⟨0⟩) true,
    .addClass "C" (some ⟨1⟩) false,
    .addInterface "I" [],
    .addInterface "J" [⟨3⟩],
    .addInterface "K" [⟨3⟩],
    .addImplements ⟨2⟩ ⟨4⟩,
    .addImplements ⟨2⟩ ⟨5⟩,
    .addMethod ⟨0⟩ ⟨"void run()"⟩ false [],
    .addAbstractMethod ⟨1⟩ ⟨"void run()"⟩ [],
    .addMethod ⟨3⟩ ⟨"void foo()"⟩ false [],
    .addAbstractMethod ⟨4⟩ ⟨"void foo()"⟩ []]).getD .empty

/-- The class gets the implementation that its superclass redeclares, and the default method that one
of its interfaces redeclares. -/
theorem first_of_dispatch_abstractOverrides : abstractOverrides.Built ∧
    ∃ h, Hierarchy.ofProgram abstractOverrides = .ok h ∧ h.chain ⟨2⟩ = .ok [⟨2⟩, ⟨1⟩, ⟨0⟩] ∧
      h.IsFirstConcrete ⟨"void run()"⟩ [⟨2⟩, ⟨1⟩, ⟨0⟩] ⟨0⟩ ∧
      h.dispatch ⟨2⟩ ⟨"void run()"⟩ = .ok (some ⟨0⟩) ∧
      h.dispatch ⟨2⟩ ⟨"void foo()"⟩ = .ok (some ⟨2⟩) ∧
      ∃ interfaces, Visits h.interfacesOf [] [⟨4⟩, ⟨5⟩] interfaces ∧
        h.IsFirstConcrete ⟨"void foo()"⟩ interfaces ⟨2⟩ := by
  have built : abstractOverrides.Built := Program.built_of_ofDeclarations? (by decide +kernel)
  obtain ⟨h, hierarchy, -, result⟩ := first_of_dispatch built
  obtain ⟨chain, -, -, run, walked, -, -, -, -, ran, onChain, -, -⟩ :=
    result ⟨2⟩ ⟨"void run()"⟩ (by decide +kernel)
  obtain ⟨chain', seeds, interfaces, foo, walked', -, listed, visits, -, fooed, -, onInterfaces, -⟩ :=
    result ⟨2⟩ ⟨"void foo()"⟩ (by decide +kernel)
  have tests : abstractOverrides.passes (fun h =>
      (h.chain ⟨2⟩).toOption == some [⟨2⟩, ⟨1⟩, ⟨0⟩] &&
      (h.chainInterfaces [⟨2⟩, ⟨1⟩, ⟨0⟩]).toOption == some [⟨4⟩, ⟨5⟩] &&
      (h.declaredMethod ⟨0⟩ ⟨"void run()"⟩).toOption == some (some ⟨0⟩) &&
      ((h.program.methodAt ⟨0⟩).toOption.map Method.isAbstract) == some false &&
      (h.dispatch ⟨2⟩ ⟨"void run()"⟩).toOption == some (some ⟨0⟩) &&
      (h.declaredMethod ⟨2⟩ ⟨"void foo()"⟩).toOption == some none &&
      (h.declaredMethod ⟨1⟩ ⟨"void foo()"⟩).toOption == some none &&
      (h.declaredMethod ⟨0⟩ ⟨"void foo()"⟩).toOption == some none &&
      (h.dispatch ⟨2⟩ ⟨"void foo()"⟩).toOption == some (some ⟨2⟩)) = true := by
    decide +kernel
  have passed := Program.test_of_passes hierarchy tests
  simp only [Bool.and_eq_true, beq_iff_eq, toOption_eq_some_iff, Option.map_eq_some_iff] at passed
  obtain ⟨⟨⟨⟨⟨⟨⟨⟨chained, seeded⟩, declared⟩, body⟩, runs⟩, foo₂⟩, foo₁⟩, foo₀⟩, foos⟩ := passed
  obtain rfl := Except.ok.inj (walked.symm.trans chained)
  obtain rfl := Except.ok.inj (walked'.symm.trans chained)
  obtain rfl := Except.ok.inj (listed.symm.trans seeded)
  obtain rfl := Except.ok.inj (ran.symm.trans runs)
  obtain ⟨m, same, first⟩ := onChain ⟨⟨0⟩, by simp, ⟨0⟩, declared, body⟩
  obtain rfl := Option.some.inj same
  refine ⟨built, h, hierarchy, chained, first, runs, foos, interfaces, visits, ?_⟩
  apply (onInterfaces ?_ ⟨2⟩).1 (Except.ok.inj (fooed.symm.trans foos))
  intro a above m concrete
  simp only [List.mem_cons, List.not_mem_nil, or_false] at above
  rcases above with rfl | rfl | rfl
  · exact concrete.not_undeclared foo₂
  · exact concrete.not_undeclared foo₁
  · exact concrete.not_undeclared foo₀

end Hierarchy

end PointsTo
