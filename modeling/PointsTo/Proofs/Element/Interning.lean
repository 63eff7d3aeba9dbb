import PointsTo.Proofs.Element
import PointsTo.Proofs.Except
import PointsTo.Proofs.FirstOccurrences

/-!
# Interned elements

A store is asked for elements of four kinds in any order, and now and then the points-to set of a
location is changed. Whatever the requests, the identifiers of each kind are the positions of its keys
in the order of their first requests. Every location has a points-to set of its own: it is empty at
first, and nothing changes it but the requests that name the location.
-/

namespace PointsTo

namespace ElementStore

variable {s : ElementStore} {p q : PointerId} {set : ObjectSet}

/-! ## Requests -/

/-- A request to a store. A variable, a static field, a field of an object and the elements of an array
are all asked for by their location. -/
inductive Request where
  | pointer (k : PointerKey)
  | csObj (o : CsObj)
  | csMethod (m : CsMethod)
  | csCallSite (i : CsCallSite)
  /-- Change the points-to set of a location. -/
  | update (p : PointerId) (change : ObjectSet → ObjectSet)

/-- Changes the points-to set of a location. A set that does not exist cannot be changed. -/
def update (s : ElementStore) (p : PointerId) (change : ObjectSet → ObjectSet) : ElementStore :=
  match s.pointsToSet p with
  | .ok set => s.setPointsTo p (change set)
  | .error _ => s

/-- The store after a request. -/
def serve (s : ElementStore) : Request → ElementStore
  | .pointer k => (s.pointer k).2
  | .csObj o => (s.csObj o).2
  | .csMethod m => (s.csMethod m).2
  | .csCallSite i => (s.csCallSite i).2
  | .update p change => s.update p change

/-- The store after requests. -/
def serveAll (s : ElementStore) (requests : List Request) : ElementStore :=
  requests.foldl serve s

/-! ## Kinds of elements -/

/-- A kind of elements that are interned in a table of their own. Nothing is put into it but the key of
a request for it. -/
structure Kind (e : Entity) (κ : Type) [Keyed κ] where
  table : ElementStore → Table κ
  ask : ElementStore → κ → Id e × ElementStore
  read : ElementStore → Id e → Except OutOfRange κ
  /-- What a request asks for, if it is for this kind. -/
  key? : Request → Option κ
  table_empty : table .empty = .empty
  index_ask (s : ElementStore) (k : κ) : (ask s k).1.index = ((table s).intern k).1
  ask_of_find? {s : ElementStore} {k : κ} {i : Nat} : (table s).find? k = some i →
    ask s k = (⟨i⟩, s)
  read_eq (s : ElementStore) (i : Id e) : read s i = fetch (table s).items i
  table_serve (s : ElementStore) (r : Request) :
    table (s.serve r) = (key? r).elim (table s) fun k => ((table s).intern k).2

/-- A change of a set is no request for an element. -/
theorem tables_update (s : ElementStore) (p : PointerId) (change : ObjectSet → ObjectSet) :
    (s.update p change).pointers = s.pointers ∧ (s.update p change).objects = s.objects ∧
      (s.update p change).methods = s.methods ∧ (s.update p change).callSites = s.callSites := by
  unfold update
  split
  · exact ⟨rfl, rfl, rfl, rfl⟩
  · exact ⟨rfl, rfl, rfl, rfl⟩

theorem pointer_of_find? {k : PointerKey} {i : Nat} (found : s.pointers.find? k = some i) :
    s.pointer k = (⟨i⟩, s) := by
  unfold pointer
  split <;> simp_all

namespace Kind

/-- Locations. -/
def location : Kind .pointer PointerKey where
  table := pointers
  ask := pointer
  read := pointerKey
  key?
    | .pointer k => some k
    | _ => none
  table_empty := rfl
  index_ask := index_pointer
  ask_of_find? := pointer_of_find?
  read_eq _ _ := rfl
  table_serve
    | s, .pointer k => pointers_pointer s k
    | _, .csObj _ => rfl
    | _, .csMethod _ => rfl
    | _, .csCallSite _ => rfl
    | s, .update p change => (tables_update s p change).1

/-- Objects under heap contexts. -/
def object : Kind .csObject CsObj where
  table := objects
  ask := csObj
  read := csObjAt
  key?
    | .csObj o => some o
    | _ => none
  table_empty := rfl
  index_ask _ _ := rfl
  ask_of_find? found := by
    rw [csObj, Table.intern_of_find?_eq_some found]
  read_eq _ _ := rfl
  table_serve
    | s, .pointer k => objects_pointer s k
    | _, .csObj _ => rfl
    | _, .csMethod _ => rfl
    | _, .csCallSite _ => rfl
    | s, .update p change => (tables_update s p change).2.1

/-- Methods under contexts. -/
def method : Kind .csMethod CsMethod where
  table := methods
  ask := csMethod
  read := csMethodAt
  key?
    | .csMethod m => some m
    | _ => none
  table_empty := rfl
  index_ask _ _ := rfl
  ask_of_find? found := by
    rw [csMethod, Table.intern_of_find?_eq_some found]
  read_eq _ _ := rfl
  table_serve
    | s, .pointer k => methods_pointer s k
    | _, .csObj _ => rfl
    | _, .csMethod _ => rfl
    | _, .csCallSite _ => rfl
    | s, .update p change => (tables_update s p change).2.2.1

/-- Call sites under contexts. -/
def callSite : Kind .csCallSite CsCallSite where
  table := callSites
  ask := csCallSite
  read := csCallSiteAt
  key?
    | .csCallSite i => some i
    | _ => none
  table_empty := rfl
  index_ask _ _ := rfl
  ask_of_find? found := by
    rw [csCallSite, Table.intern_of_find?_eq_some found]
  read_eq _ _ := rfl
  table_serve
    | s, .pointer k => callSites_pointer s k
    | _, .csObj _ => rfl
    | _, .csMethod _ => rfl
    | _, .csCallSite _ => rfl
    | s, .update p change => (tables_update s p change).2.2.2

/-! ## Identifiers -/

variable {e : Entity} {κ : Type} [Keyed κ] {kind : Kind e κ} {k k' : κ} {i j : Id e}
  {requests : List Request}

/-- The keys that are asked for, each with the identifier that is given for it. -/
def given (kind : Kind e κ) (s : ElementStore) : List Request → List (κ × Id e)
  | [] => []
  | r :: requests =>
    ((kind.key? r).map fun k => (k, (kind.ask s k).1)).toList ++ kind.given (s.serve r) requests

theorem read_eq_ok_iff : kind.read s i = .ok k ↔ (kind.table s).get? i.index = some k := by
  rw [kind.read_eq, fetch_eq_ok_iff]
  rfl

/-- A request gives one identifier at most, and the others are kept. -/
theorem read_serve_iff {r : Request} : kind.read (s.serve r) i = .ok k ↔
    kind.read s i = .ok k ∨ kind.key? r = some k ∧ i = (kind.ask s k).1 := by
  rw [read_eq_ok_iff, read_eq_ok_iff, kind.table_serve]
  cases asked : kind.key? r with
  | none => simp
  | some k' =>
    have position : i.index = ((kind.table s).intern k').1 ↔ i = (kind.ask s k').1 := by
      rw [← kind.index_ask]
      exact ⟨Id.ext_index, congrArg Id.index⟩
    rw [Option.elim_some, Table.get?_intern_iff, position]
    apply or_congr_right
    constructor
    · rintro ⟨same, rfl⟩
      exact ⟨rfl, same⟩
    · rintro ⟨asked, same⟩
      obtain rfl := Option.some.inj asked
      exact ⟨same, rfl⟩

/-- After requests, the identifiers that are read are the old ones and those that were given. -/
theorem read_serveAll_iff : kind.read (s.serveAll requests) i = .ok k ↔
    kind.read s i = .ok k ∨ (k, i) ∈ kind.given s requests := by
  induction requests generalizing s with
  | nil => simp [serveAll, given]
  | cons r requests ih =>
    have first : (k, i) ∈ ((kind.key? r).map fun k => (k, (kind.ask s k).1)).toList ↔
        kind.key? r = some k ∧ i = (kind.ask s k).1 := by
      rw [Option.mem_toList, Option.map_eq_some_iff]
      constructor
      · rintro ⟨k', asked, same⟩
        obtain ⟨rfl, rfl⟩ := Prod.mk.inj same
        exact ⟨asked, rfl⟩
      · rintro ⟨asked, rfl⟩
        exact ⟨k, asked, rfl⟩
    rw [serveAll, List.foldl_cons, ← serveAll, ih, read_serve_iff, or_assoc, given, List.mem_append,
      first]

theorem read_empty : kind.read .empty i ≠ .ok k := by
  rw [ne_eq, read_eq_ok_iff, kind.table_empty]
  exact nofun

/-- From the start, the identifiers that are read are those that were given. -/
theorem read_iff_mem_given :
    kind.read (empty.serveAll requests) i = .ok k ↔ (k, i) ∈ kind.given .empty requests := by
  rw [read_serveAll_iff, or_iff_right read_empty]

theorem eq_iff_of_read (hi : kind.read s i = .ok k) (hj : kind.read s j = .ok k') :
    i = j ↔ k = k' := by
  rw [read_eq_ok_iff] at hi hj
  constructor
  · rintro rfl
    exact Option.some.inj (hi.symm.trans hj)
  · rintro rfl
    exact Id.ext_index (Table.get?_injective hi hj)

theorem ask_of_read (known : kind.read s i = .ok k) : kind.ask s k = (i, s) :=
  kind.ask_of_find? (Table.find?_eq_some_iff.2 (read_eq_ok_iff.1 known))

theorem toList_table_serveAll [DecidableEq κ] : (kind.table (s.serveAll requests)).toList =
    (requests.filterMap kind.key?).foldl addNew (kind.table s).toList := by
  induction requests generalizing s with
  | nil => rfl
  | cons r requests ih =>
    rw [serveAll, List.foldl_cons, ← serveAll, ih, kind.table_serve]
    cases asked : kind.key? r with
    | none => rw [List.filterMap_cons_none asked, Option.elim_none]
    | some k =>
      rw [List.filterMap_cons_some asked, Option.elim_some, List.foldl_cons]
      rw [← Table.toList_insert]
      rfl

/-- After requests since there was nothing, the identifiers of a kind stand for the keys that were asked
for. -/
structure Canonical [DecidableEq κ] (kind : Kind e κ) (requests : List Request) : Prop where
  same_iff {k k' : κ} {i j : Id e} : (k, i) ∈ kind.given .empty requests →
    (k', j) ∈ kind.given .empty requests → (i = j ↔ k = k')
  /-- An identifier is read as the key that it was given for, and no other identifier is. -/
  read_iff {k : κ} {i : Id e} :
    kind.read (empty.serveAll requests) i = .ok k ↔ (k, i) ∈ kind.given .empty requests
  /-- Identifiers are positions in the order of first requests. -/
  dense : ∃ keys, FirstsOf (requests.filterMap kind.key?) keys ∧ ∀ i k,
    kind.read (empty.serveAll requests) i = .ok k ↔ keys[i.index]? = some k
  again {k : κ} {i : Id e} : kind.read (empty.serveAll requests) i = .ok k →
    kind.ask (empty.serveAll requests) k = (i, empty.serveAll requests)
  /-- Whatever is asked for later, identifiers keep their keys. -/
  kept {k : κ} {i : Id e} (later : List Request) :
    kind.read (empty.serveAll requests) i = .ok k →
      kind.read ((empty.serveAll requests).serveAll later) i = .ok k

theorem canonical [DecidableEq κ] (kind : Kind e κ) (requests : List Request) :
    kind.Canonical requests where
  same_iff hi hj := eq_iff_of_read (read_iff_mem_given.2 hi) (read_iff_mem_given.2 hj)
  read_iff := read_iff_mem_given
  dense := by
    refine ⟨(kind.table (empty.serveAll requests)).toList, ?_, fun i k => ?_⟩
    · rw [toList_table_serveAll, kind.table_empty]
      exact firstsOf_distinct _
    · rw [read_eq_ok_iff, Table.get?_eq_getElem?_toList]
  again := ask_of_read
  kept later known := read_serveAll_iff.2 (Or.inl known)

end Kind

/-! ## Points-to sets -/

/-- What a request makes of the points-to set of a location. -/
def Request.changed (p : PointerId) (set : ObjectSet) : Request → ObjectSet
  | .update q change => if q = p then change set else set
  | _ => set

theorem Request.changed_of_ne {r : Request} (other : ∀ change, r ≠ .update p change) :
    r.changed p set = set := by
  cases r with
  | update q change =>
    refine if_neg ?_
    rintro rfl
    exact other change rfl
  | _ => rfl

theorem pointsToSet_pointer (found : s.pointsToSet p = .ok set) (k : PointerKey) :
    (s.pointer k).2.pointsToSet p = .ok set := by
  unfold pointer
  split
  · exact found
  · rw [pointsToSet_eq_ok_iff] at found ⊢
    have inside : p.index < s.pointsTo.size := (Array.getElem?_eq_some_iff.1 found).1
    rw [Array.getElem?_push_lt inside, ← Array.getElem?_eq_getElem inside, found]

theorem pointsToSet_update (found : s.pointsToSet p = .ok set) (q : PointerId)
    (change : ObjectSet → ObjectSet) :
    (s.update q change).pointsToSet p = .ok ((Request.update q change).changed p set) := by
  rw [Request.changed, update]
  by_cases own : q = p
  · subst own
    rw [found, if_pos rfl]
    rw [pointsToSet_eq_ok_iff] at found ⊢
    have inside : q.index < s.pointsTo.size := (Array.getElem?_eq_some_iff.1 found).1
    exact Array.getElem?_setIfInBounds_self_of_lt inside
  · rw [if_neg own]
    split
    · rw [pointsToSet_eq_ok_iff] at found ⊢
      have apart : q.index ≠ p.index := fun same => own (Id.ext_index same)
      rw [setPointsTo, Array.getElem?_setIfInBounds_ne apart, found]
    · exact found

theorem pointsToSet_serve (found : s.pointsToSet p = .ok set) (r : Request) :
    (s.serve r).pointsToSet p = .ok (r.changed p set) := by
  cases r with
  | pointer k => exact pointsToSet_pointer found k
  | csObj o => exact found
  | csMethod m => exact found
  | csCallSite i => exact found
  | update q change => exact pointsToSet_update found q change

/-- After requests, a location has what those that name it have made of its set. -/
theorem pointsToSet_serveAll (found : s.pointsToSet p = .ok set) (requests : List Request) :
    (s.serveAll requests).pointsToSet p =
      .ok (requests.foldl (fun set r => r.changed p set) set) := by
  induction requests generalizing s set with
  | nil => exact found
  | cons r requests ih => exact ih (pointsToSet_serve found r)

theorem pointsToSet_pointer_of_new {k : PointerKey} (new : ∀ p, s.pointerKey p ≠ .ok k) :
    (s.pointer k).2.pointsToSet (s.pointer k).1 = .ok .empty := by
  unfold pointer
  split
  · rename_i i found
    exact absurd (fetch_eq_ok_iff.2 (Table.find?_eq_some_iff.1 found)) (new ⟨i⟩)
  · rw [pointsToSet_eq_ok_iff, ← s.pointsTo_size]
    exact Array.getElem?_push_size

/-- Every location has a points-to set of its own. -/
structure OwnsSets (s : ElementStore) : Prop where
  size : s.pointsTo.size = s.pointers.size
  exists_iff (p : PointerId) : (∃ set, s.pointsToSet p = .ok set) ↔ ∃ k, s.pointerKey p = .ok k
  new {k : PointerKey} : (∀ p, s.pointerKey p ≠ .ok k) →
    (s.pointer k).2.pointsToSet (s.pointer k).1 = .ok .empty
  /-- A request that does not change the set of a location leaves it alone. -/
  kept {p : PointerId} {set : ObjectSet} {r : Request} : s.pointsToSet p = .ok set →
    (∀ change, r ≠ .update p change) → (s.serve r).pointsToSet p = .ok set
  changed {p : PointerId} {set : ObjectSet} (later : List Request) : s.pointsToSet p = .ok set →
    (s.serveAll later).pointsToSet p = .ok (later.foldl (fun set r => r.changed p set) set)

theorem ownsSets (s : ElementStore) : s.OwnsSets where
  size := s.pointsTo_size
  exists_iff p := by
    rw [pointsToSet, exists_fetch_eq_ok_iff, pointerKey, exists_fetch_eq_ok_iff, s.pointsTo_size]
    rfl
  new := pointsToSet_pointer_of_new
  kept {p set r} found other := by
    rw [pointsToSet_serve found r, Request.changed_of_ne other]
  changed later found := pointsToSet_serveAll found later

/-! ## Lists of one kind of locations -/

theorem ids_pointerList (s : ElementStore) :
    s.pointerList.map Prod.fst = (List.range s.pointers.size).map Id.mk := by
  have positions : s.pointers.toList.zipIdx.map Prod.snd = List.range s.pointers.size := by
    rw [List.zipIdx_map_snd, Table.length_toList, List.range_eq_range']
  rw [← positions, pointerList, List.map_map, List.map_map]
  rfl

theorem perm_cons_append {α : Type} {a : α} {l rest : List α} (before : List α)
    (first : l.Perm (a :: rest)) : (before ++ l).Perm (a :: (before ++ rest)) :=
  (first.append_left before).trans List.perm_middle

/-- The identifiers of the four lists are those of all locations, each once. -/
theorem perm_ids (s : ElementStore) :
    (s.varPointers.map (·.1) ++ (s.staticFieldPointers.map (·.1) ++
      (s.instanceFieldPointers.map (·.1) ++ s.arrayPointers.map (·.1)))).Perm
        (s.pointerList.map Prod.fst) := by
  unfold varPointers staticFieldPointers instanceFieldPointers arrayPointers
  induction s.pointerList with
  | nil => exact .refl _
  | cons entry l ih =>
    obtain ⟨p, k⟩ := entry
    -- the identifier is the first of the list that has it
    refine .trans ?_ (ih.cons p)
    cases k with
    | var c v => exact .refl _
    | staticField f => exact perm_cons_append _ (.refl _)
    | instanceField o f => exact perm_cons_append _ (perm_cons_append _ (.refl _))
    | arrayIndex o =>
      exact perm_cons_append _ (perm_cons_append _ (perm_cons_append _ (.refl _)))

/-- Each location is in one of the four lists, once, and it is the list of its kind. -/
structure SortsLocations (s : ElementStore) : Prop where
  vars {p : PointerId} {c : ContextId} {v : VarId} :
    (p, c, v) ∈ s.varPointers ↔ s.pointerKey p = .ok (.var c v)
  staticFields {p : PointerId} {f : FieldId} :
    (p, f) ∈ s.staticFieldPointers ↔ s.pointerKey p = .ok (.staticField f)
  instanceFields {p : PointerId} {o : CsObjId} {f : FieldId} :
    (p, o, f) ∈ s.instanceFieldPointers ↔ s.pointerKey p = .ok (.instanceField o f)
  arrays {p : PointerId} {o : CsObjId} :
    (p, o) ∈ s.arrayPointers ↔ s.pointerKey p = .ok (.arrayIndex o)
  once : (s.varPointers.map (·.1) ++ (s.staticFieldPointers.map (·.1) ++
    (s.instanceFieldPointers.map (·.1) ++ s.arrayPointers.map (·.1)))).Perm
      ((List.range s.pointers.size).map Id.mk)

theorem sortsLocations (s : ElementStore) : s.SortsLocations where
  vars := mem_varPointers.trans fetch_eq_ok_iff.symm
  staticFields := mem_staticFieldPointers.trans fetch_eq_ok_iff.symm
  instanceFields := mem_instanceFieldPointers.trans fetch_eq_ok_iff.symm
  arrays := mem_arrayPointers.trans fetch_eq_ok_iff.symm
  once := by
    rw [← ids_pointerList]
    exact perm_ids s

/-! ## All requests -/

/-- What was asked for is found under the identifier that was given, and nothing else is found. -/
structure Finds (requests : List Request) : Prop where
  pointer {k : PointerKey} {p : PointerId} :
    (empty.serveAll requests).findPointer? k = some p ↔ (k, p) ∈ Kind.location.given .empty requests
  csMethod {m : CsMethod} {i : CsMethodId} :
    (empty.serveAll requests).findCsMethod? m = some i ↔ (m, i) ∈ Kind.method.given .empty requests

theorem finds (requests : List Request) : Finds requests where
  pointer {k p} := by
    rw [findPointer?_eq_some_iff, ← Kind.read_iff_mem_given, Kind.read_eq_ok_iff]
    rfl
  csMethod {m i} := by
    rw [findCsMethod?_eq_some_iff, ← Kind.read_iff_mem_given, Kind.read_eq_ok_iff]
    rfl

/-- Whatever is asked for and changed in whatever order, the identifiers of each kind stand for the keys
that were asked for, every location has a points-to set of its own, and the lists of locations sort them
by kind. -/
theorem canonical_of_requests (requests : List Request) :
    Kind.location.Canonical requests ∧ Kind.object.Canonical requests ∧
      Kind.method.Canonical requests ∧ Kind.callSite.Canonical requests ∧ Finds requests ∧
      (empty.serveAll requests).OwnsSets ∧ (empty.serveAll requests).SortsLocations :=
  ⟨Kind.canonical _ requests, Kind.canonical _ requests, Kind.canonical _ requests,
    Kind.canonical _ requests, finds requests, ownsSets _, sortsLocations _⟩

/-- Locations of three kinds are asked for around a change, one of them twice. -/
example : Kind.location.given .empty [.pointer (.arrayIndex ⟨0⟩), .pointer (.staticField ⟨0⟩),
    .update ⟨0⟩ (fun set => (set.add ⟨7⟩).2), .pointer (.var ⟨0⟩ ⟨0⟩), .pointer (.arrayIndex ⟨0⟩)] =
      [(.arrayIndex ⟨0⟩, ⟨0⟩), (.staticField ⟨0⟩, ⟨1⟩), (.var ⟨0⟩ ⟨0⟩, ⟨2⟩), (.arrayIndex ⟨0⟩, ⟨0⟩)] := by
  decide +kernel

end ElementStore

end PointsTo
