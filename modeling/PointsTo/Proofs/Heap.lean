import PointsTo.Proofs.Inclusion.Rules
import PointsTo.Heap

/-!
# Heaps with one object for each allocation

What an analysis relies on in a heap model that names objects by their allocation statements: every
object comes from an allocation statement of the program, no two come from one, and objects stay
where they are.
-/

namespace PointsTo

/-- The states of a heap model that allocations of a program lead to. -/
inductive HeapModel.Reached (M : HeapModel) (p : Program) : M.State → Prop where
  | initial : Reached M p M.initial
  | objectOf {h h' : M.State} {site : AllocSite} {a : Allocation} {o : ObjId}
      (before : Reached M p h) (allocates : p.allocation? site = some a)
      (made : M.objectOf p site a.ty h = .ok (o, h')) : Reached M p h'

/-- A heap model has one object for each allocation statement. -/
structure HeapModel.PerSite (M : HeapModel) : Prop where
  objectAt (h : M.State) (o : ObjId) : M.objectAt h o = fetch (M.objects h) o
  initial : M.objects M.initial = #[]
  allocated {p : Program} {h : M.State} {i : Nat} {obj : Obj} : M.Reached p h →
    (M.objects h)[i]? = some obj →
      obj.id = ⟨i⟩ ∧ p.allocation? obj.site = some ⟨obj.ty, obj.containerClass⟩
  unique {p : Program} {h : M.State} {i j : Nat} {obj obj' : Obj} : M.Reached p h →
    (M.objects h)[i]? = some obj → (M.objects h)[j]? = some obj' → obj.site = obj'.site → i = j
  objectOf {p : Program} {h : M.State} {site : AllocSite} {a : Allocation} : M.Reached p h →
    p.allocation? site = some a → ∃ o h' obj, M.objectOf p site a.ty h = .ok (o, h') ∧
      (M.objects h).toList <+: (M.objects h').toList ∧
      (M.objects h')[o.index]? = some obj ∧ obj.site = site ∧
      ∀ other ∈ (M.objects h').toList, other ∈ (M.objects h).toList ∨ other = obj

theorem getElem?_of_prefix {α : Type} {a b : Array α} (grow : a.toList <+: b.toList) {i : Nat}
    {x : α} (h : a[i]? = some x) : b[i]? = some x := by
  obtain ⟨rest, same⟩ := grow
  rw [← Array.getElem?_toList] at h ⊢
  rw [← same, List.getElem?_append_left]
  · exact h
  · exact (List.getElem?_eq_some_iff.1 h).1

/-! ## The model with one object for each allocation -/

namespace Heap

/-- Objects come from allocations of the program and are listed under their allocation. -/
structure Indexed (p : Program) (h : Heap AllocSite) : Prop where
  objects : ∀ (i : Nat) (obj : Obj), h.objects[i]? = some obj → obj.id = ⟨i⟩ ∧
    p.allocation? obj.site = some ⟨obj.ty, obj.containerClass⟩ ∧ h.shares[obj.site]? = some ⟨i⟩
  shares : ∀ (site : AllocSite) (o : ObjId), h.shares[site]? = some o →
    ∃ obj, h.objects[o.index]? = some obj ∧ obj.site = site

variable {p : Program} {h h' : Heap AllocSite} {site : AllocSite} {ty : Ty} {o : ObjId}

theorem indexed_empty : (empty : Heap AllocSite).Indexed p := by
  constructor
  · intro i obj found
    simp [empty] at found
  · intro site o found
    simp [empty] at found

/-- The program has a method for each of its allocations. -/
theorem method_of_allocation? {a : Allocation} (allocates : p.allocation? site = some a) :
    ∃ method, p.methods[site.method.index]? = some method ∧ method.owner = a.owner := by
  obtain ⟨method, lhs, declared, -, owner⟩ := Program.allocation?_eq_some_iff.1 allocates
  exact ⟨method, declared, owner⟩

theorem objectOf_of_known (known : h.shares[site]? = some o) :
    objectOf (fun site _ => site) p site ty h = .ok (o, h) := by
  simp only [objectOf, known]

theorem objectOf_of_new {a : Allocation} (new : h.shares[site]? = none)
    (allocates : p.allocation? site = some a) :
    objectOf (fun site _ => site) p site ty h = .ok (⟨h.objects.size⟩,
      ⟨h.objects.push ⟨⟨h.objects.size⟩, site, ty, a.owner⟩,
        h.shares.insert site ⟨h.objects.size⟩⟩) := by
  obtain ⟨method, declared, owner⟩ := method_of_allocation? allocates
  have lookup : p.methodAt site.method = .ok method := fetch_eq_ok_iff.2 declared
  simp only [objectOf, new, lookup, ← owner]
  rfl

theorem Indexed.push {a : Allocation} (indexed : h.Indexed p) (new : h.shares[site]? = none)
    (allocates : p.allocation? site = some a) :
    (⟨h.objects.push ⟨⟨h.objects.size⟩, site, a.ty, a.owner⟩,
      h.shares.insert site ⟨h.objects.size⟩⟩ : Heap AllocSite).Indexed p := by
  constructor
  · intro i obj found
    rw [Array.getElem?_push] at found
    split at found
    · rename_i last
      obtain rfl := Option.some.inj found
      refine ⟨by rw [last], allocates, ?_⟩
      simp [last]
    · obtain ⟨id, known, listed⟩ := indexed.objects i obj found
      refine ⟨id, known, ?_⟩
      have other : site ≠ obj.site := fun same => by simp [same, listed] at new
      simpa [Std.TreeMap.getElem?_insert, other] using listed
  · intro site' o found
    rw [Std.TreeMap.getElem?_insert] at found
    by_cases same : site = site'
    · subst same
      have here : (⟨h.objects.size⟩ : ObjId) = o := by simpa using found
      exact ⟨⟨⟨h.objects.size⟩, site, a.ty, a.owner⟩, by simp [← here], rfl⟩
    · have old : h.shares[site']? = some o := by simpa [same] using found
      obtain ⟨obj, present, place⟩ := indexed.shares site' o old
      have inside := (Array.getElem?_eq_some_iff.1 present).1
      exact ⟨obj, by rw [Array.getElem?_push, if_neg (Nat.ne_of_lt inside), present], place⟩

/-- The object of an allocation is found or made. -/
theorem Indexed.objectOf {a : Allocation} (indexed : h.Indexed p)
    (allocates : p.allocation? site = some a) :
    ∃ o h' obj, Heap.objectOf (fun site _ => site) p site a.ty h = .ok (o, h') ∧ h'.Indexed p ∧
      h.objects.toList <+: h'.objects.toList ∧ h'.objects[o.index]? = some obj ∧
      obj.site = site ∧ ∀ other ∈ h'.objects.toList, other ∈ h.objects.toList ∨ other = obj := by
  cases known : h.shares[site]? with
  | some o =>
    obtain ⟨obj, present, place⟩ := indexed.shares site o known
    exact ⟨o, h, obj, objectOf_of_known known, indexed, List.prefix_rfl, present, place,
      fun _ => Or.inl⟩
  | none =>
    exact ⟨_, _, ⟨⟨h.objects.size⟩, site, a.ty, a.owner⟩, objectOf_of_new known allocates,
      indexed.push known allocates, by simp, by simp, rfl, by simp⟩

theorem indexed_of_reached {h : HeapModel.bySite.State} (reached : HeapModel.bySite.Reached p h) :
    Indexed p h := by
  induction reached with
  | initial => exact indexed_empty
  | objectOf _ allocates made ih =>
    obtain ⟨o, h', obj, found, indexed, -⟩ := Indexed.objectOf ih allocates
    have same := found.symm.trans made
    rw [← (Prod.mk.inj (Except.ok.inj same)).2]
    exact indexed

end Heap

theorem HeapModel.bySite_perSite : HeapModel.bySite.PerSite where
  objectAt _ _ := rfl
  initial := rfl
  allocated reached found :=
    ⟨((Heap.indexed_of_reached reached).objects _ _ found).1,
      ((Heap.indexed_of_reached reached).objects _ _ found).2.1⟩
  unique reached found found' same := by
    have first := ((Heap.indexed_of_reached reached).objects _ _ found).2.2
    have second := ((Heap.indexed_of_reached reached).objects _ _ found').2.2
    rw [same, second] at first
    exact (congrArg Id.index (Option.some.inj first)).symm
  objectOf reached allocates := by
    obtain ⟨o, h', obj, made, -, rest⟩ := (Heap.indexed_of_reached reached).objectOf allocates
    exact ⟨o, h', obj, made, rest⟩

end PointsTo
