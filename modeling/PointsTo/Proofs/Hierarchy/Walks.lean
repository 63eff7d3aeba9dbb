import PointsTo.Proofs.Hierarchy.Total
import PointsTo.Proofs.Program.Acyclic

/-!
# Walks along supertypes end

No class is above itself, so the classes of a superclass chain differ and the chain comes to a class
without a superclass before its bound. The walk along interfaces expands each class once. So the
bounds of these walks never cut anything off.
-/

namespace PointsTo

namespace Hierarchy

variable {h : Hierarchy}

/-- The whole superclass chain of a class: each class is followed by its superclass, and the last one
has none. -/
inductive Chain (h : Hierarchy) : ClassId → List ClassId → Prop where
  | last {c : ClassId} (top : h.superclassOf c = .ok none) : Chain h c [c]
  | next {c above : ClassId} {l : List ClassId} (link : h.superclassOf c = .ok (some above))
      (rest : Chain h above l) : Chain h c (c :: l)

/-- The interfaces that a class lists. -/
def interfacesOf (h : Hierarchy) (c : ClassId) : Except OutOfRange (List ClassId) :=
  return (← h.program.classAt c).interfaces

/-- A chain that is not longer than the bound is found whole. -/
theorem Chain.chainFrom_eq {c : ClassId} {l : List ClassId} (whole : h.Chain c l) {bound : Nat}
    (room : l.length ≤ bound) : h.chainFrom bound c = .ok l := by
  induction whole generalizing bound with
  | last top =>
    cases bound with
    | zero => simp at room
    | succ bound =>
      rw [chainFrom, top]
      rfl
  | next link _ ih =>
    cases bound with
    | zero => simp at room
    | succ bound =>
      have rest := ih (Nat.le_of_succ_le_succ room)
      rw [chainFrom, link]
      simp only [bind, Except.bind, rest]
      rfl

theorem extends_of_superclassOf {c above : ClassId} (link : h.superclassOf c = .ok (some above)) :
    h.program.Extends c above := by
  obtain ⟨decl, lookup, found⟩ := bind_eq_ok_iff.1 link
  have declared := fetch_eq_ok_iff.1 lookup
  have superclass := pure_eq_ok_iff.1 found
  simp [Program.Extends, Program.supertypesOf, declared, ClassDecl.supertypes, superclass]

section WellFormed

variable (wf : h.program.WellFormed) (acyclic : h.program.Acyclic)
include wf acyclic

/-- The classes on the way up to a class differ from it and from each other. -/
theorem exists_chain_of_path (room : Nat) (path : List ClassId) {c : ClassId}
    (inside : ∀ a ∈ c :: path, a.index < h.program.classes.size) (nodup : path.Nodup)
    (below : ∀ a ∈ path, Relation.TransGen h.program.Extends a c)
    (enough : h.program.classes.size ≤ room + path.length) : ∃ l, h.Chain c l ∧ l.length ≤ room := by
  have fresh : (c :: path).Nodup := by
    apply List.nodup_cons.2 ⟨?_, nodup⟩
    exact fun mem => acyclic c (below c mem)
  induction room generalizing path c with
  | zero =>
    have length := length_le_of_ids fresh inside
    rw [List.length_cons] at length
    omega
  | succ room ih =>
    obtain ⟨above, link, declared⟩ := exists_superclassOf wf (inside c List.mem_cons_self)
    cases above with
    | none => exact ⟨[c], .last link, by simp⟩
    | some above =>
      have up := extends_of_superclassOf link
      have below' : ∀ a ∈ c :: path, Relation.TransGen h.program.Extends a above :=
        List.forall_mem_cons.2 ⟨.single up, fun a mem => (below a mem).tail up⟩
      have fresh' : (above :: c :: path).Nodup := by
        apply List.nodup_cons.2 ⟨?_, fresh⟩
        exact fun mem => acyclic above (below' above mem)
      have inside' : ∀ a ∈ above :: c :: path, a.index < h.program.classes.size :=
        List.forall_mem_cons.2 ⟨declared above rfl, inside⟩
      obtain ⟨l, rest, length⟩ := ih (c :: path) inside' fresh below'
        (by rw [List.length_cons]; omega) fresh'
      exact ⟨c :: l, .next link rest, Nat.succ_le_succ length⟩

/-- The superclass chain of a declared class is found whole. -/
theorem exists_chain {c : ClassId} (declared : c.index < h.program.classes.size) :
    ∃ l, h.chain c = .ok l ∧ h.Chain c l := by
  obtain ⟨l, whole, length⟩ := exists_chain_of_path wf acyclic h.program.classes.size [] (c := c)
    (by simpa using declared) List.nodup_nil (by simp) (Nat.le_refl _)
  exact ⟨l, whole.chainFrom_eq (Nat.le_succ_of_le length), whole⟩

/-- Both walks of dispatch end by themselves: the one along superclasses at a class without a
superclass, and the one along interfaces when no interface is waiting. -/
theorem exists_walks {c : ClassId} (declared : c.index < h.program.classes.size) :
    ∃ chain seeds interfaces, h.chain c = .ok chain ∧ h.Chain c chain ∧
      h.chainInterfaces chain = .ok seeds ∧
      Table.Expands h.interfacesOf 0 (.ofList seeds) interfaces ∧
      ∀ s, h.dispatchDefault chain s = h.firstConcrete s interfaces.toList := by
  obtain ⟨chain, found, whole⟩ := exists_chain wf acyclic declared
  obtain ⟨chain', found', onChain⟩ := exists_chainFrom wf (h.program.classes.size + 1) declared
  obtain rfl : chain = chain' := Except.ok.inj (found.symm.trans found')
  obtain ⟨seeds, listed, inside⟩ := exists_chainInterfaces wf onChain
  have known : ∀ k : ClassId, k.index < h.program.classes.size →
      ∃ ks, h.interfacesOf k = .ok ks ∧ ∀ k' ∈ ks, k'.index < h.program.classes.size :=
    fun k hk => exists_interfaces wf hk
  obtain ⟨interfaces, closed, expands, -⟩ := exists_closure (fun _ inside => inside) known inside
  refine ⟨chain, seeds, interfaces, found, whole, listed, expands, fun s => ?_⟩
  have closed' : closure (fun c => do return (← h.program.classAt c).interfaces)
      h.program.classes.size seeds = .ok interfaces := closed
  simp only [dispatchDefault, listed, bind, Except.bind] at closed' ⊢
  rw [closed']

end WellFormed

end Hierarchy

end PointsTo
