import PointsTo.Proofs.Analysis.Solution
import PointsTo.Proofs.Closure.Distance
import PointsTo.Proofs.Hierarchy.Walks

/-!
# Default methods are found by distance

When no class of a superclass chain has a concrete method, dispatch takes a default method of an
interface that is nearest to the chain, counted in links between interfaces. Distance is not the
order of subtyping: an interface that a class lists is nearer than one that a listed interface
extends, but a class may list an interface and one of its subinterfaces, and then the override in the
subinterface is passed over if the class lists it behind the other.
-/

namespace PointsTo

namespace Hierarchy

variable {h : Hierarchy}

/-- A class declares a method for a subsignature, and the method is not abstract. -/
def Concrete (h : Hierarchy) (s : Subsignature) (c : ClassId) (m : MethodId) : Prop :=
  h.declaredMethod c s = .ok (some m) ∧
    ∃ method, h.program.methodAt m = .ok method ∧ method.isAbstract = false

/-- An interface is a number of links away from the interfaces that the classes of a chain list. -/
def Inherits (h : Hierarchy) (chain : List ClassId) (n : Nat) (i : ClassId) : Prop :=
  ∃ seeds, h.chainInterfaces chain = .ok seeds ∧ PathTo h.interfacesOf seeds n i

/-! ## Searches -/

theorem Concrete.not_undeclared {s : Subsignature} {c : ClassId} {m : MethodId}
    (concrete : h.Concrete s c m) : h.declaredMethod c s ≠ .ok none := by
  rw [concrete.1]
  simp

/-- The search for a concrete method looks at one class and then at the rest. -/
theorem firstConcrete_cons {s : Subsignature} {c : ClassId} {l : List ClassId}
    {found : Option MethodId} (search : h.firstConcrete s (c :: l) = .ok found) :
    (∃ m, h.Concrete s c m ∧ found = some m) ∨
      (∀ m, ¬h.Concrete s c m) ∧ h.firstConcrete s l = .ok found := by
  obtain ⟨here, lookup, rest⟩ := bind_eq_ok_iff.1 search
  cases here with
  | none =>
    exact Or.inr ⟨fun m concrete => concrete.not_undeclared lookup, rest⟩
  | some m =>
    obtain ⟨method, lookup', rest⟩ := bind_eq_ok_iff.1 rest
    cases abstract : method.isAbstract with
    | false =>
      rw [abstract] at rest
      exact Or.inl ⟨m, ⟨lookup, method, lookup', abstract⟩, (pure_eq_ok_iff.1 rest).symm⟩
    | true =>
      rw [abstract] at rest
      refine Or.inr ⟨?_, rest⟩
      rintro m' ⟨declared, method', found', concrete⟩
      rw [lookup] at declared
      obtain rfl := Option.some.inj (Except.ok.inj declared)
      rw [lookup'] at found'
      obtain rfl := Except.ok.inj found'
      rw [abstract] at concrete
      cases concrete

/-- The method that is found is that of the first class with a concrete one. -/
theorem exists_of_firstConcrete {s : Subsignature} {l : List ClassId} {m : MethodId}
    (search : h.firstConcrete s l = .ok (some m)) : ∃ (i : Nat) (c : ClassId), l[i]? = some c ∧
      h.Concrete s c m ∧
      ∀ (j : Nat) (c' : ClassId) m', l[j]? = some c' → h.Concrete s c' m' → i ≤ j := by
  induction l with
  | nil => cases search
  | cons c l ih =>
    rcases firstConcrete_cons search with ⟨m', concrete, same⟩ | ⟨none, rest⟩
    · obtain rfl := Option.some.inj same
      exact ⟨0, c, rfl, concrete, fun j _ _ _ _ => Nat.zero_le j⟩
    · obtain ⟨i, c', found, concrete, first⟩ := ih rest
      refine ⟨i + 1, c', found, concrete, fun j a m' found' concrete' => ?_⟩
      cases j with
      | zero =>
        obtain rfl := Option.some.inj found'
        exact absurd concrete' (none m')
      | succ j => exact Nat.succ_le_succ (first j a m' found' concrete')

/-- If nothing is found, no class has a concrete method. -/
theorem not_concrete_of_firstConcrete {s : Subsignature} {l : List ClassId}
    (search : h.firstConcrete s l = .ok none) : ∀ c ∈ l, ∀ m, ¬h.Concrete s c m := by
  induction l with
  | nil => simp
  | cons c l ih =>
    rcases firstConcrete_cons search with ⟨m, -, same⟩ | ⟨none, rest⟩
    · cases same
    · exact List.forall_mem_cons.2 ⟨none, ih rest⟩

/-- Of the keys of a closure with a concrete method, the one that is found has the least distance. -/
theorem exists_nearest_of_firstConcrete {s : Subsignature} {seeds : List ClassId}
    {interfaces : Table ClassId} (expands : Table.Expands h.interfacesOf 0 (.ofList seeds) interfaces)
    {m : MethodId} (search : h.firstConcrete s interfaces.toList = .ok (some m)) :
    ∃ i n, h.Concrete s i m ∧ PathTo h.interfacesOf seeds n i ∧
      ∀ j k m', PathTo h.interfacesOf seeds k j → h.Concrete s j m' → n ≤ k := by
  obtain ⟨x, i, at_x, concrete, first⟩ := exists_of_firstConcrete search
  rw [← Table.get?_eq_getElem?_toList] at at_x
  have reached := expands.mem_toList_iff_pathTo.1 (Table.mem_toList_of_get? at_x)
  classical
  refine ⟨i, Nat.find reached, concrete, Nat.find_spec reached, fun j k m' path concrete' => ?_⟩
  obtain ⟨y, at_y⟩ := Table.mem_toList_iff_get?.1 (expands.mem_toList_iff_pathTo.2 ⟨k, path⟩)
  have before : x ≤ y := by
    refine first y j m' ?_ concrete'
    rwa [← Table.get?_eq_getElem?_toList]
  obtain ⟨n, le, path'⟩ := expands.within_of_le at_x at_y before ⟨k, Nat.le_refl k, path⟩
  exact Nat.le_trans (Nat.find_min' reached path') le

/-! ## Dispatch -/

section WellFormed

variable (wf : h.program.WellFormed) (acyclic : h.program.Acyclic) {c : ClassId} {s : Subsignature}
include wf

/-- Without a concrete method on the superclass chain, dispatch looks for a default method. -/
theorem dispatch_eq_dispatchDefault (declared : c.index < h.program.classes.size)
    {chain : List ClassId} (found : h.chain c = .ok chain)
    (none : ∀ a ∈ chain, ∀ m, ¬h.Concrete s a m) :
    h.dispatch c s = h.dispatchDefault chain s := by
  obtain ⟨chain', found', onChain⟩ := exists_chainFrom wf (h.program.classes.size + 1) declared
  obtain rfl : chain = chain' := Except.ok.inj (found.symm.trans found')
  obtain ⟨first, search, -⟩ := exists_firstConcrete wf s onChain
  rw [dispatch, found]
  simp only [bind, Except.bind, search]
  cases first with
  | none => rfl
  | some m =>
    obtain ⟨i, a, listed, concrete, -⟩ := exists_of_firstConcrete search
    exact absurd concrete (none a (List.mem_of_getElem? listed) m)

include acyclic

/-- Without a concrete method on the superclass chain, dispatch finds a concrete method of an
interface that is as near as any with one, and nothing only if there is none. -/
theorem exists_nearest (declared : c.index < h.program.classes.size) :
    ∃ chain, h.chain c = .ok chain ∧ h.Chain c chain ∧
      ((∀ a ∈ chain, ∀ m, ¬h.Concrete s a m) →
        (∀ m, h.dispatch c s = .ok (some m) → ∃ i n, h.Concrete s i m ∧ h.Inherits chain n i ∧
          ∀ j k m', h.Inherits chain k j → h.Concrete s j m' → n ≤ k) ∧
        (h.dispatch c s = .ok none → ∀ j k m', h.Inherits chain k j → ¬h.Concrete s j m')) := by
  obtain ⟨chain, seeds, interfaces, found, whole, listed, expands, search⟩ :=
    exists_walks wf acyclic declared
  refine ⟨chain, found, whole, fun none => ?_⟩
  rw [dispatch_eq_dispatchDefault wf declared found none, search]
  have path : ∀ {j k}, h.Inherits chain k j → PathTo h.interfacesOf seeds k j := by
    rintro j k ⟨seeds', listed', path⟩
    obtain rfl := Except.ok.inj (listed.symm.trans listed')
    exact path
  constructor
  · intro m done
    obtain ⟨i, n, concrete, path', nearest⟩ := exists_nearest_of_firstConcrete expands done
    exact ⟨i, n, concrete, ⟨seeds, listed, path'⟩,
      fun j k m' inherited => nearest j k m' (path inherited)⟩
  · intro done j k m' inherited
    have mem := expands.mem_toList_iff_pathTo.2 ⟨k, path inherited⟩
    exact not_concrete_of_firstConcrete done j mem m'

end WellFormed

/-- For a class of a built program without a concrete method on its superclass chain, dispatch finds a
method or nothing. A method that it finds is declared by an interface with the least distance among
the interfaces with a concrete method, so no such interface that is nearer is passed over, be it a
subinterface or not. If it finds nothing, no interface of the chain has a concrete method. -/
theorem nearest_of_dispatch {p : Program} (built : p.Built) :
    ∃ h, Hierarchy.ofProgram p = .ok h ∧ h.program = p ∧
      ∀ (c : ClassId) (s : Subsignature), c.index < p.classes.size →
        ∃ chain found, h.chain c = .ok chain ∧ h.Chain c chain ∧ h.dispatch c s = .ok found ∧
          ((∀ a ∈ chain, ∀ m, ¬h.Concrete s a m) →
            (∀ m, found = some m → ∃ i n, h.Concrete s i m ∧ h.Inherits chain n i ∧
              ∀ j k m', h.Inherits chain k j → h.Concrete s j m' → n ≤ k) ∧
            (found = none → ∀ j k m', h.Inherits chain k j → ¬h.Concrete s j m')) := by
  obtain ⟨h, hierarchy, same⟩ := Hierarchy.exists_ofProgram built.wellFormed.toChecked
  refine ⟨h, hierarchy, same, fun c s declared => ?_⟩
  have wf : h.program.WellFormed := same.symm ▸ built.wellFormed
  have acyclic : h.program.Acyclic := same.symm ▸ built.acyclic
  have declared' : c.index < h.program.classes.size := same.symm ▸ declared
  obtain ⟨found, dispatched, -⟩ := exists_dispatch wf declared' s
  obtain ⟨chain, walked, whole, nearest⟩ := exists_nearest (s := s) wf acyclic declared'
  refine ⟨chain, found, walked, whole, dispatched, fun none => ?_⟩
  obtain ⟨finds, lacks⟩ := nearest none
  rw [dispatched] at finds lacks
  exact ⟨fun m hm => finds m (congrArg Except.ok hm), fun hn => lacks (congrArg Except.ok hn)⟩

/-- An interface, one that extends it and overrides its default method, and a third that extends the
second. One class lists the first two, in this order, and another lists the third. -/
def overriddenDefault : Program :=
  (Program.ofDeclarations? [
    .addInterface "I" [],
    .addInterface "J" [⟨0⟩],
    .addInterface "K" [⟨1⟩],
    .addClass "C" none false,
    .addImplements ⟨3⟩ ⟨0⟩,
    .addImplements ⟨3⟩ ⟨1⟩,
    .addClass "D" none false,
    .addImplements ⟨4⟩ ⟨2⟩,
    .addMethod ⟨0⟩ ⟨"void foo()"⟩ false [],
    .addMethod ⟨1⟩ ⟨"void foo()"⟩ false []]).getD .empty

theorem built_overriddenDefault : overriddenDefault.Built :=
  Program.built_of_ofDeclarations? (by decide +kernel)

/-- The second class gets the override, which is one link away; the method that it overrides is two
links away. -/
theorem nearest_of_dispatch_overriddenDefault : overriddenDefault.Built ∧
    ∃ h, Hierarchy.ofProgram overriddenDefault = .ok h ∧
      h.dispatch ⟨4⟩ ⟨"void foo()"⟩ = .ok (some ⟨1⟩) ∧
      ∃ i n, h.Concrete ⟨"void foo()"⟩ i ⟨1⟩ ∧ h.Inherits [⟨4⟩] n i ∧
        ∀ j k m', h.Inherits [⟨4⟩] k j → h.Concrete ⟨"void foo()"⟩ j m' → n ≤ k := by
  obtain ⟨h, hierarchy, -, result⟩ := nearest_of_dispatch built_overriddenDefault
  obtain ⟨chain, found, walked, -, dispatched, nearest⟩ :=
    result ⟨4⟩ ⟨"void foo()"⟩ (by decide +kernel)
  have tests : overriddenDefault.passes (fun h =>
      (h.chain ⟨4⟩).toOption == some [⟨4⟩] &&
      (h.declaredMethod ⟨4⟩ ⟨"void foo()"⟩).toOption == some none &&
      (h.dispatch ⟨4⟩ ⟨"void foo()"⟩).toOption == some (some ⟨1⟩)) = true := by
    decide +kernel
  have passed := Program.test_of_passes hierarchy tests
  simp only [walked, dispatched, Bool.and_eq_true, beq_iff_eq, toOption_eq_some_iff,
    Except.ok.injEq] at passed
  obtain ⟨⟨rfl, undeclared⟩, rfl⟩ := passed
  refine ⟨built_overriddenDefault, h, hierarchy, dispatched, (nearest ?_).1 ⟨1⟩ rfl⟩
  intro a listed m concrete
  rw [List.mem_singleton.1 listed] at concrete
  exact concrete.not_undeclared undeclared

/-- The first class gets the method that the override in the subinterface overrides, although it lists
the subinterface too. -/
theorem exists_bypassed_override : overriddenDefault.Built ∧
    ∃ h, Hierarchy.ofProgram overriddenDefault = .ok h ∧
      h.chain ⟨3⟩ = .ok [⟨3⟩] ∧ (∀ m, ¬h.Concrete ⟨"void foo()"⟩ ⟨3⟩ m) ∧
      h.dispatch ⟨3⟩ ⟨"void foo()"⟩ = .ok (some ⟨0⟩) ∧ h.Concrete ⟨"void foo()"⟩ ⟨0⟩ ⟨0⟩ ∧
      h.Inherits [⟨3⟩] 0 ⟨1⟩ ∧ h.isSubtype ⟨1⟩ ⟨0⟩ = .ok true ∧
      h.Concrete ⟨"void foo()"⟩ ⟨1⟩ ⟨1⟩ := by
  obtain ⟨h, hierarchy, -⟩ :=
    Hierarchy.exists_ofProgram built_overriddenDefault.wellFormed.toChecked
  have tests : overriddenDefault.passes (fun h =>
      (h.chain ⟨3⟩).toOption == some [⟨3⟩] &&
      (h.declaredMethod ⟨3⟩ ⟨"void foo()"⟩).toOption == some none &&
      (h.dispatch ⟨3⟩ ⟨"void foo()"⟩).toOption == some (some ⟨0⟩) &&
      (h.declaredMethod ⟨0⟩ ⟨"void foo()"⟩).toOption == some (some ⟨0⟩) &&
      (h.declaredMethod ⟨1⟩ ⟨"void foo()"⟩).toOption == some (some ⟨1⟩) &&
      ((h.program.methodAt ⟨0⟩).toOption.map Method.isAbstract) == some false &&
      ((h.program.methodAt ⟨1⟩).toOption.map Method.isAbstract) == some false &&
      (h.chainInterfaces [⟨3⟩]).toOption == some [⟨0⟩, ⟨1⟩] &&
      (h.isSubtype ⟨1⟩ ⟨0⟩).toOption == some true) = true := by
    decide +kernel
  have passed := Program.test_of_passes hierarchy tests
  simp only [Bool.and_eq_true, beq_iff_eq, toOption_eq_some_iff, Option.map_eq_some_iff] at passed
  obtain ⟨⟨⟨⟨⟨⟨⟨⟨chain, undeclared⟩, dispatched⟩, overridden⟩, override⟩, body⟩, body'⟩, listed⟩,
    subtype⟩ := passed
  exact ⟨built_overriddenDefault, h, hierarchy, chain, fun m concrete =>
    concrete.not_undeclared undeclared, dispatched, ⟨overridden, body⟩,
    ⟨[⟨0⟩, ⟨1⟩], listed, .seed (by simp)⟩, subtype, override, body'⟩

end Hierarchy

end PointsTo
