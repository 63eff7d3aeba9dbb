import PointsTo.Proofs.Context.Policy
import PointsTo.Proofs.Except
import PointsTo.Proofs.FirstOccurrences

/-!
# Interned contexts

A table of contexts serves requests one after the other: for the identifier of a sequence, or for that
of the last elements of a context, with or without one more element. Whatever the requests, two
identifiers are the same exactly when their sequences are. So an identifier stands for its sequence, and
laws about the last elements of sequences are laws about identifiers.
-/

namespace PointsTo

/-- A list is the end of another one, with all of its elements or else with `n` of them. -/
structure IsLast {α : Type} (n : Nat) (l last : List α) : Prop where
  suffix : last <:+ l
  length : last.length = min n l.length

theorem isLast_lastN {α : Type} (n : Nat) (l : List α) : IsLast n l (lastN n l) := by
  constructor
  · exact List.drop_suffix _ _
  · rw [lastN, List.length_drop]
    omega

namespace ContextTable

variable {t t' : ContextTable} {c d : ContextId} {x y : Context}

/-! ## Requests -/

/-- A request to a table. -/
inductive Request where
  | intern (ctx : Context)
  | append (parent : ContextId) (e : ContextElement) (limit : Nat)
  | truncate (source : ContextId) (limit : Nat)
deriving DecidableEq

/-- Serves a request. -/
def serve (t : ContextTable) : Request → Except OutOfRange (ContextId × ContextTable)
  | .intern ctx => .ok (t.intern ctx)
  | .append parent e limit => t.append parent e limit
  | .truncate source limit => t.truncate source limit

/-- Serves requests one after the other, and gives each with the identifier that was given for it. -/
def serveAll (t : ContextTable) :
    List Request → Except OutOfRange (List (Request × ContextId) × ContextTable)
  | [] => .ok ([], t)
  | r :: requests => do
    let (c, t) ← t.serve r
    let (log, t) ← t.serveAll requests
    return ((r, c) :: log, t)

/-- The identifier that is given for a request has the sequence that is asked for. A request for no
elements is served without a look at the parent. -/
def Request.Reads (t : ContextTable) : Request → ContextId → Prop
  | .intern ctx, c => t.elements c = .ok ctx
  | .append parent e limit, c => limit = 0 ∧ c = .empty ∨
      ∃ x, t.elements parent = .ok x ∧ t.elements c = .ok (lastN limit (x ++ [e]))
  | .truncate source limit, c => ∃ x, t.elements source = .ok x ∧ t.elements c = .ok (lastN limit x)

/-! ## Sequences of identifiers -/

theorem elements_eq_ok_iff : t.elements c = .ok x ↔ t.table.toList[c.index]? = some x := by
  rw [elements, fetch_eq_ok_iff, ← Table.get?_eq_getElem?_toList]
  rfl

theorem elements_empty (t : ContextTable) : t.elements .empty = .ok [] :=
  fetch_eq_ok_iff.2 t.first

theorem exists_elements_iff : (∃ x, t.elements c = .ok x) ↔ c.index < t.size :=
  exists_fetch_eq_ok_iff

theorem elements_of_prefix (grow : t.table.toList <+: t'.table.toList)
    (known : t.elements c = .ok x) : t'.elements c = .ok x :=
  fetch_eq_ok_iff.2 (Table.get?_of_prefix grow (fetch_eq_ok_iff.1 known))

/-- Identifiers are the same exactly when their sequences are. -/
theorem eq_iff_of_elements (hc : t.elements c = .ok x) (hd : t.elements d = .ok y) :
    c = d ↔ x = y := by
  constructor
  · intro same
    subst same
    exact Except.ok.inj (hc.symm.trans hd)
  · intro same
    subst same
    exact Id.ext_index (Table.get?_injective (fetch_eq_ok_iff.1 hc) (fetch_eq_ok_iff.1 hd))

/-- Interning the sequence of an identifier gives the identifier and changes nothing. -/
theorem intern_of_elements (known : t.elements c = .ok x) : t.intern x = (c, t) := by
  have found : t.table.find? x = some c.index := Table.find?_eq_some_iff.2 (fetch_eq_ok_iff.1 known)
  have same := Table.intern_of_find?_eq_some found
  simp only [intern, same]

theorem elements_intern (t : ContextTable) (x : Context) :
    (t.intern x).2.elements (t.intern x).1 = .ok x :=
  fetch_eq_ok_iff.2 (Table.get?_intern t.table x)

theorem toList_intern (t : ContextTable) (x : Context) :
    (t.intern x).2.table.toList = addNew t.table.toList x :=
  Table.toList_insert t.table x

theorem exists_append (inside : c.index < t.size) (e : ContextElement) (limit : Nat) :
    ∃ d t', t.append c e limit = .ok (d, t') := by
  rw [append_eq]
  split
  · exact ⟨_, _, rfl⟩
  · obtain ⟨x, known⟩ := exists_elements_iff.2 inside
    rw [known]
    exact ⟨_, _, rfl⟩

theorem exists_truncate (inside : c.index < t.size) (limit : Nat) :
    ∃ d t', t.truncate c limit = .ok (d, t') := by
  obtain ⟨x, known⟩ := exists_elements_iff.2 inside
  simp only [truncate, known, bind, Except.bind]
  split
  · exact ⟨_, _, rfl⟩
  · exact ⟨_, _, rfl⟩

/-! ## Serving requests -/

theorem Request.Reads.mono {r : Request} (reads : r.Reads t c)
    (grow : t.table.toList <+: t'.table.toList) : r.Reads t' c := by
  cases r with
  | intern ctx => exact elements_of_prefix grow reads
  | append parent e limit =>
    rcases reads with none | ⟨x, parents, known⟩
    · exact Or.inl none
    · exact Or.inr ⟨x, elements_of_prefix grow parents, elements_of_prefix grow known⟩
  | truncate source limit =>
    obtain ⟨x, sources, known⟩ := reads
    exact ⟨x, elements_of_prefix grow sources, elements_of_prefix grow known⟩

theorem prefix_of_toList_eq_addNew (added : t'.table.toList = addNew t.table.toList x) :
    t.table.toList <+: t'.table.toList := by
  rw [added]
  exact prefix_addNew _ x

/-- A request is served with the sequence that is asked for, and the table has it afterwards, at its end
if it is new. -/
theorem reads_of_serve {r : Request} (run : t.serve r = .ok (c, t')) :
    r.Reads t' c ∧ ∃ x, t'.elements c = .ok x ∧ t'.table.toList = addNew t.table.toList x := by
  -- a table that stays as it is has the sequence already
  have known : ∀ {c x}, t.elements c = .ok x → t.table.toList = addNew t.table.toList x := by
    intro c x known
    rw [addNew, if_pos (Table.mem_toList_of_get? (fetch_eq_ok_iff.1 known))]
  have interned : ∀ x, t.intern x = (c, t') →
      t'.elements c = .ok x ∧ t'.table.toList = addNew t.table.toList x := by
    intro x run
    obtain ⟨rfl, rfl⟩ := Prod.mk.inj run
    exact ⟨elements_intern t x, toList_intern t x⟩
  cases r with
  | intern ctx =>
    obtain ⟨reads, added⟩ := interned ctx (Except.ok.inj run)
    exact ⟨reads, ctx, reads, added⟩
  | append parent e limit =>
    rw [serve, append_eq] at run
    split at run
    · rename_i none
      obtain ⟨rfl, rfl⟩ := Prod.mk.inj (Except.ok.inj run)
      exact ⟨Or.inl ⟨none, rfl⟩, [], elements_empty t, known (elements_empty t)⟩
    · obtain ⟨x, parents, rest⟩ := bind_eq_ok_iff.1 run
      obtain ⟨reads, added⟩ := interned _ (Except.ok.inj rest)
      have grow := prefix_of_toList_eq_addNew added
      exact ⟨Or.inr ⟨x, elements_of_prefix grow parents, reads⟩, _, reads, added⟩
  | truncate source limit =>
    obtain ⟨x, sources, rest⟩ := bind_eq_ok_iff.1 run
    split at rest
    · rename_i short
      obtain ⟨rfl, rfl⟩ := Prod.mk.inj (Except.ok.inj rest)
      refine ⟨⟨x, sources, ?_⟩, x, sources, known sources⟩
      rw [lastN_of_length_le short]
      exact sources
    · obtain ⟨reads, added⟩ := interned _ (Except.ok.inj rest)
      have grow := prefix_of_toList_eq_addNew added
      exact ⟨⟨x, elements_of_prefix grow sources, reads⟩, _, reads, added⟩

section ServeAll

variable {requests : List Request} {log : List (Request × ContextId)}

/-- The contexts that requests leave behind are those that were there before and then, each once, those
that were asked for. -/
theorem reads_of_serveAll (run : t.serveAll requests = .ok (log, t')) :
    (∀ entry ∈ log, entry.1.Reads t' entry.2) ∧
      ∃ xs, log.mapM (fun entry => t'.elements entry.2) = .ok xs ∧
        t'.table.toList = xs.foldl addNew t.table.toList := by
  induction requests generalizing t log with
  | nil =>
    obtain ⟨rfl, rfl⟩ := Prod.mk.inj (Except.ok.inj run)
    exact ⟨fun _ mem => absurd mem List.not_mem_nil, [], rfl, rfl⟩
  | cons r requests ih =>
    obtain ⟨⟨c, t₁⟩, first, rest⟩ := bind_eq_ok_iff.1 run
    obtain ⟨⟨log', t₂⟩, later, same⟩ := bind_eq_ok_iff.1 rest
    obtain ⟨rfl, rfl⟩ := Prod.mk.inj (pure_eq_ok_iff.1 same)
    obtain ⟨reads, x, known, added⟩ := reads_of_serve first
    obtain ⟨laterReads, xs, found, contents⟩ := ih later
    have grow : t₁.table.toList <+: t₂.table.toList := by
      rw [contents]
      exact prefix_foldl_addNew xs _
    refine ⟨?_, x :: xs, ?_, ?_⟩
    · intro entry mem
      rcases List.mem_cons.1 mem with rfl | mem
      · exact reads.mono grow
      · exact laterReads entry mem
    · rw [mapM_eq_ok_iff] at found ⊢
      rw [List.map_cons, List.map_cons, found, elements_of_prefix grow known]
    · rw [contents, added, List.foldl_cons]

theorem prefix_of_serveAll (run : t.serveAll requests = .ok (log, t')) :
    t.table.toList <+: t'.table.toList := by
  obtain ⟨-, xs, -, contents⟩ := reads_of_serveAll run
  rw [contents]
  exact prefix_foldl_addNew xs _

/-! ## Canonical tables -/

/-- A table that has served some requests since it had the empty context alone: its identifiers stand
for sequences. -/
structure Canonical (log : List (Request × ContextId)) (t : ContextTable) : Prop where
  empty : t.elements .empty = .ok []
  same_iff {c d : ContextId} {x y : Context} : t.elements c = .ok x → t.elements d = .ok y →
    (c = d ↔ x = y)
  /-- Identifiers are the positions in a list. It has the empty context and the sequences asked for,
  each where it was first asked for. -/
  listed (c : ContextId) (x : Context) : t.elements c = .ok x ↔ t.table.toList[c.index]? = some x
  dense (c : ContextId) : (∃ x, t.elements c = .ok x) ↔ c.index < t.size
  order : ∃ xs, log.mapM (fun entry => t.elements entry.2) = .ok xs ∧
    FirstsOf ([] :: xs) t.table.toList
  /-- Whatever is asked for later, identifiers keep their sequences. -/
  kept {later : List Request} {log' : List (Request × ContextId)} {t' : ContextTable} {c : ContextId}
    {x : Context} : t.serveAll later = .ok (log', t') → t.elements c = .ok x → t'.elements c = .ok x
  again {c : ContextId} {x : Context} : t.elements c = .ok x → t.intern x = (c, t)
  /-- All requests about identifiers of the table are served. -/
  served {c : ContextId} (e : ContextElement) (limit : Nat) : c.index < t.size →
    (∃ d t', t.append c e limit = .ok (d, t')) ∧ ∃ d t', t.truncate c limit = .ok (d, t')
  interned {x : Context} {c : ContextId} : (.intern x, c) ∈ log → t.elements c = .ok x
  appended {parent c : ContextId} {e : ContextElement} {n : Nat} {x : Context} :
    (.append parent e n, c) ∈ log → t.elements parent = .ok x →
      ∃ y, t.elements c = .ok y ∧ IsLast n (x ++ [e]) y
  truncated {source c : ContextId} {n : Nat} : (.truncate source n, c) ∈ log →
    ∃ x y, t.elements source = .ok x ∧ t.elements c = .ok y ∧ IsLast n x y
  truncateTwice {source c d d' : ContextId} {m n : Nat} : (.truncate source m, c) ∈ log →
    (.truncate c n, d) ∈ log → (.truncate source (min m n), d') ∈ log → d = d'
  truncateAppended {parent c d d' : ContextId} {e : ContextElement} {m n : Nat} :
    (.append parent e m, c) ∈ log → (.truncate c n, d) ∈ log →
      (.append parent e (min m n), d') ∈ log → d = d'

theorem eq_of_truncate_truncate {source c d d' : ContextId} {m n : Nat}
    (first : (Request.truncate source m).Reads t c) (second : (Request.truncate c n).Reads t d)
    (direct : (Request.truncate source (min m n)).Reads t d') : d = d' := by
  obtain ⟨x, sources, known⟩ := first
  obtain ⟨y, known', twice⟩ := second
  obtain ⟨x', sources', once⟩ := direct
  obtain rfl := Except.ok.inj (known.symm.trans known')
  obtain rfl := Except.ok.inj (sources.symm.trans sources')
  apply (eq_iff_of_elements twice once).2
  rw [lastN_lastN, Nat.min_comm]

theorem eq_of_truncate_append {parent c d d' : ContextId} {e : ContextElement} {m n : Nat}
    (first : (Request.append parent e m).Reads t c) (second : (Request.truncate c n).Reads t d)
    (direct : (Request.append parent e (min m n)).Reads t d') : d = d' := by
  obtain ⟨y, known', twice⟩ := second
  rcases first with ⟨rfl, rfl⟩ | ⟨x, parents, known⟩
  · -- nothing is kept of any parent
    obtain rfl := Except.ok.inj ((elements_empty t).symm.trans known')
    have none : t.elements d' = .ok [] := by
      rcases direct with ⟨-, rfl⟩ | ⟨x, -, once⟩
      · exact elements_empty t
      · rwa [Nat.zero_min, lastN_zero] at once
    exact (eq_iff_of_elements twice none).2 (lastN_of_length_le (Nat.zero_le n))
  · obtain rfl := Except.ok.inj (known.symm.trans known')
    have once : t.elements d' = .ok (lastN (min m n) (x ++ [e])) := by
      rcases direct with ⟨none, rfl⟩ | ⟨x', parents', once⟩
      · rw [none, lastN_zero]
        exact elements_empty t
      · obtain rfl := Except.ok.inj (parents.symm.trans parents')
        exact once
    apply (eq_iff_of_elements twice once).2
    rw [lastN_lastN, Nat.min_comm]

/-- Whatever is asked for in whatever order, the identifiers of a table stand for sequences, and those
given for the last elements of contexts stand for them, whatever the limits. -/
theorem canonical_of_serveAll (run : ContextTable.empty.serveAll requests = .ok (log, t)) :
    Canonical log t := by
  obtain ⟨reads, xs, found, contents⟩ := reads_of_serveAll run
  constructor
  case empty => exact elements_empty t
  case same_iff => exact eq_iff_of_elements
  case listed => exact fun c x => elements_eq_ok_iff
  case dense => exact fun c => exists_elements_iff
  case order =>
    refine ⟨xs, found, ?_⟩
    have collected : t.table.toList = distinct ([] :: xs) := contents
    rw [collected]
    exact firstsOf_distinct _
  case kept => exact fun later known => elements_of_prefix (prefix_of_serveAll later) known
  case again => exact intern_of_elements
  case served =>
    exact fun e limit inside => ⟨exists_append inside e limit, exists_truncate inside limit⟩
  case interned => exact fun mem => reads _ mem
  case appended =>
    intro parent c e n x mem parents
    refine ⟨lastN n (x ++ [e]), ?_, isLast_lastN n _⟩
    rcases reads _ mem with ⟨none, same⟩ | ⟨x', parents', known⟩
    · change c = .empty at same
      change n = 0 at none
      rw [none, same, lastN_zero]
      exact elements_empty t
    · obtain rfl := Except.ok.inj (parents.symm.trans parents')
      exact known
  case truncated =>
    intro source c n mem
    obtain ⟨x, sources, known⟩ := reads _ mem
    exact ⟨x, lastN n x, sources, known, isLast_lastN n x⟩
  case truncateTwice =>
    exact fun first second direct =>
      eq_of_truncate_truncate (reads _ first) (reads _ second) (reads _ direct)
  case truncateAppended =>
    exact fun first second direct =>
      eq_of_truncate_append (reads _ first) (reads _ second) (reads _ direct)

end ServeAll

/-- Contexts that are cut once and twice, with one more element or without. The limits are as small and
as large as they can be. -/
def cutTwice : List Request :=
  [.intern [.callSite ⟨1⟩, .callSite ⟨2⟩, .callSite ⟨3⟩], .truncate ⟨1⟩ 2, .truncate ⟨2⟩ 1,
    .truncate ⟨1⟩ 1, .append ⟨1⟩ (.callSite ⟨4⟩) 2, .truncate ⟨4⟩ 1, .append ⟨1⟩ (.callSite ⟨4⟩) 1,
    .append ⟨1⟩ (.callSite ⟨4⟩) (wordLimit - 1), .truncate ⟨6⟩ (wordLimit - 1),
    .append ⟨6⟩ (.object ⟨0⟩) 0, .truncate ⟨6⟩ 0]

theorem canonical_of_serveAll_cutTwice : ∃ log t,
    ContextTable.empty.serveAll cutTwice = .ok (log, t) ∧
    log.map Prod.snd = [⟨1⟩, ⟨2⟩, ⟨3⟩, ⟨3⟩, ⟨4⟩, ⟨5⟩, ⟨5⟩, ⟨6⟩, ⟨6⟩, ⟨0⟩, ⟨0⟩] ∧ Canonical log t := by
  have runs : (match ContextTable.empty.serveAll cutTwice with
      | .error _ => false
      | .ok (log, _) => decide (log.map Prod.snd =
          [⟨1⟩, ⟨2⟩, ⟨3⟩, ⟨3⟩, ⟨4⟩, ⟨5⟩, ⟨5⟩, ⟨6⟩, ⟨6⟩, ⟨0⟩, ⟨0⟩])) = true := by
    decide +kernel
  split at runs
  · cases runs
  · rename_i log t run
    exact ⟨log, t, run, of_decide_eq_true runs, canonical_of_serveAll run⟩

end ContextTable

end PointsTo
