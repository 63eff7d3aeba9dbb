import PointsTo.Keyed

/-!
# Tables of distinct entries

A table lists distinct keys in the order in which they were first asked for. The position of a key
is its identifier for ever after: `insert` adds an absent key at the end and leaves a present one
where it is. An index from keys to positions, in step with the list, answers look-ups.
-/

namespace PointsTo

/-- Distinct keys in the order of their first insertion. -/
structure Table (κ : Type) [Keyed κ] where
  items : Array κ
  slots : Map κ Nat
  /-- The index and the list say the same. -/
  slots_iff : ∀ (k : κ) (i : Nat), slots[k]? = some i ↔ items[i]? = some k

namespace Table

variable {κ : Type} [Keyed κ]

/-- The table without entries. -/
def empty : Table κ where
  items := #[]
  slots := ∅
  slots_iff := by simp

instance : EmptyCollection (Table κ) := ⟨empty⟩

instance : Inhabited (Table κ) := ⟨empty⟩

/-- The number of entries. -/
def size (t : Table κ) : Nat :=
  t.items.size

/-- The entries in the order of their positions. -/
def toList (t : Table κ) : List κ :=
  t.items.toList

/-- The position of a key. -/
def find? (t : Table κ) (k : κ) : Option Nat :=
  t.slots[k]?

/-- Whether a key is in the table. -/
def contains (t : Table κ) (k : κ) : Bool :=
  (t.find? k).isSome

/-- The key at a position. -/
def get? (t : Table κ) (i : Nat) : Option κ :=
  t.items[i]?

theorem find?_eq_some_iff {t : Table κ} {k : κ} {i : Nat} :
    t.find? k = some i ↔ t.get? i = some k :=
  t.slots_iff k i

/-- A key that the table does not have goes to its end. -/
def push (t : Table κ) (k : κ) (h : t.find? k = none) : Table κ where
  items := t.items.push k
  slots := t.slots.insert k t.items.size
  slots_iff := by
    intro k' i
    rw [Std.TreeMap.getElem?_insert, Array.getElem?_push]
    by_cases same : k = k'
    · subst same
      have fresh : t.items[i]? ≠ some k := by
        intro present
        have found := (t.slots_iff k i).2 present
        rw [find?] at h
        simp [h] at found
      by_cases last : i = t.items.size
      · simp [last]
      · simp [last, fresh, Ne.symm last]
    · have apart : Keyed.order k k' ≠ .eq := by simpa using same
      by_cases last : i = t.items.size
      · have unused : t.slots[k']? ≠ some i := by
          intro found
          have present := (t.slots_iff k' i).1 found
          simp [last] at present
        simp [apart, last, same]
        simpa [last] using unused
      · simpa [apart, last] using t.slots_iff k' i

/-- Adds a key at the end unless the table has it, and gives its position. -/
def intern (t : Table κ) (k : κ) : Nat × Table κ :=
  match h : t.find? k with
  | some i => (i, t)
  | none => (t.size, t.push k h)

/-- Adds a key at the end unless the table has it. -/
def insert (t : Table κ) (k : κ) : Table κ :=
  (t.intern k).2

/-- Adds keys one after the other. -/
def insertAll (t : Table κ) (ks : List κ) : Table κ :=
  ks.foldl insert t

/-- The table of the keys of a list, each at its first occurrence. -/
def ofList (ks : List κ) : Table κ :=
  empty.insertAll ks

/-! ## What the operations do to the list of entries -/

theorem mem_toList_iff {t : Table κ} {k : κ} : k ∈ t.toList ↔ ∃ i, t.find? k = some i := by
  simp only [toList, Array.mem_toList_iff, Array.mem_iff_getElem?, find?_eq_some_iff, get?]

theorem contains_iff {t : Table κ} {k : κ} : t.contains k = true ↔ k ∈ t.toList := by
  rw [contains, Option.isSome_iff_exists, mem_toList_iff]

theorem toList_empty : (empty : Table κ).toList = [] := rfl

theorem intern_of_find?_eq_some {t : Table κ} {k : κ} {i : Nat} (h : t.find? k = some i) :
    t.intern k = (i, t) := by
  unfold intern
  split <;> simp_all

theorem intern_of_find?_eq_none {t : Table κ} {k : κ} (h : t.find? k = none) :
    t.intern k = (t.size, t.push k h) := by
  unfold intern
  split <;> simp_all

theorem toList_insert_of_mem {t : Table κ} {k : κ} (h : k ∈ t.toList) :
    (t.insert k).toList = t.toList := by
  obtain ⟨i, found⟩ := mem_toList_iff.1 h
  rw [insert, intern_of_find?_eq_some found]

theorem toList_insert_of_not_mem {t : Table κ} {k : κ} (h : k ∉ t.toList) :
    (t.insert k).toList = t.toList ++ [k] := by
  have absent : t.find? k = none := by
    cases found : t.find? k with
    | none => rfl
    | some i => exact absurd (mem_toList_iff.2 ⟨i, found⟩) h
  rw [insert, intern_of_find?_eq_none absent]
  simp [toList, push]

/-- The position that `intern` gives is the position of the key afterwards. -/
theorem get?_intern (t : Table κ) (k : κ) : (t.intern k).2.get? (t.intern k).1 = some k := by
  cases found : t.find? k with
  | some i => simpa [intern_of_find?_eq_some found] using find?_eq_some_iff.1 found
  | none => simp [intern_of_find?_eq_none found, push, get?, size]

/-- An entry of a table stays where it is when another key is interned. -/
theorem get?_intern_of_get? {t : Table κ} {k k' : κ} {i : Nat}
    (h : t.get? i = some k) : (t.intern k').2.get? i = some k := by
  cases found : t.find? k' with
  | some j => simpa [intern_of_find?_eq_some found] using h
  | none =>
    have inside : i < t.items.size := by
      have := (Array.getElem?_eq_some_iff.1 h).1
      exact this
    simp only [intern_of_find?_eq_none found, push, get?, Array.getElem?_push]
    rw [if_neg (Nat.ne_of_lt inside)]
    exact h

end Table

end PointsTo
