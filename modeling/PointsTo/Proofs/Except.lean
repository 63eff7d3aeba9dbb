import PointsTo.Id

/-!
# Look-ups in sequence

When a sequence of look-ups and checks succeeds, and where it fails. Each statement characterises
success or failure, so that the operations themselves need not be opened.
-/

namespace PointsTo

section Except

variable {ε α β : Type}

theorem bind_eq_ok_iff {x : Except ε α} {f : α → Except ε β} {b : β} :
    x >>= f = .ok b ↔ ∃ a, x = .ok a ∧ f a = .ok b := by
  cases x with
  | error e => simp [bind, Except.bind]
  | ok a => simp [bind, Except.bind]

theorem toOption_eq_some_iff {x : Except ε α} {a : α} : x.toOption = some a ↔ x = .ok a := by
  cases x <;> simp [Except.toOption]

theorem bind_eq_error_iff {x : Except ε α} {f : α → Except ε β} {e : ε} :
    x >>= f = .error e ↔ x = .error e ∨ ∃ a, x = .ok a ∧ f a = .error e := by
  cases x with
  | error e' => simp [bind, Except.bind]
  | ok a => simp [bind, Except.bind]

theorem pure_eq_ok_iff {a b : α} : (pure a : Except ε α) = .ok b ↔ a = b := by
  simp [pure, Except.pure]

/-- A look-up whose result is paired with something known. -/
theorem bind_pure_mk_eq_ok_iff {x : Except ε α} {a : α} {b c : β} :
    (x >>= fun a => pure (b, a)) = .ok (c, a) ↔ b = c ∧ x = .ok a := by
  cases x <;> simp [bind, Except.bind, pure, Except.pure]

theorem forM_eq_ok_iff {f : α → Except ε Unit} {l : List α} :
    forM l f = .ok () ↔ ∀ a ∈ l, f a = .ok () := by
  induction l with
  | nil => simp [pure, Except.pure]
  | cons a l ih =>
    rw [List.forM_cons, bind_eq_ok_iff, List.forall_mem_cons, ← ih]
    exact ⟨fun ⟨_, first, rest⟩ => ⟨first, rest⟩, fun ⟨first, rest⟩ => ⟨(), first, rest⟩⟩

theorem exists_of_forM_eq_error {f : α → Except ε Unit} {l : List α} {e : ε}
    (h : forM l f = .error e) : ∃ a ∈ l, f a = .error e := by
  induction l with
  | nil => cases h
  | cons a l ih =>
    rw [List.forM_cons] at h
    rcases bind_eq_error_iff.1 h with here | ⟨-, -, later⟩
    · exact ⟨a, List.mem_cons_self, here⟩
    · obtain ⟨x, mem, failed⟩ := ih later
      exact ⟨x, List.mem_cons_of_mem a mem, failed⟩

/-- A fold fails at one of its steps. -/
theorem exists_of_foldlM_eq_error {f : β → α → Except ε β} {l : List α} {b : β} {e : ε}
    (h : l.foldlM f b = .error e) : ∃ a ∈ l, ∃ b', f b' a = .error e := by
  induction l generalizing b with
  | nil => cases h
  | cons a l ih =>
    rw [List.foldlM_cons] at h
    rcases bind_eq_error_iff.1 h with here | ⟨b', -, later⟩
    · exact ⟨a, List.mem_cons_self, b, here⟩
    · obtain ⟨x, mem, failed⟩ := ih later
      exact ⟨x, List.mem_cons_of_mem a mem, failed⟩

/-- A list of look-ups that all succeed gives their results. -/
theorem exists_mapM_eq_ok {f : α → Except ε β} {l : List α} (h : ∀ a ∈ l, ∃ b, f a = .ok b) :
    ∃ bs, l.mapM f = .ok bs := by
  induction l with
  | nil => exact ⟨[], rfl⟩
  | cons a l ih =>
    obtain ⟨b, first⟩ := h a (by simp)
    obtain ⟨bs, rest⟩ := ih fun x hx => h x (by simp [hx])
    refine ⟨b :: bs, ?_⟩
    rw [List.mapM_cons, first, rest]
    rfl

theorem mapM_eq_ok_iff {f : α → Except ε β} {l : List α} {bs : List β} :
    l.mapM f = .ok bs ↔ l.map f = bs.map .ok := by
  induction l generalizing bs with
  | nil => simp [pure, Except.pure, eq_comm]
  | cons a l ih =>
    rw [List.mapM_cons, bind_eq_ok_iff]
    constructor
    · rintro ⟨b, first, rest⟩
      obtain ⟨bs', tail, whole⟩ := bind_eq_ok_iff.1 rest
      rw [← pure_eq_ok_iff.1 whole, List.map_cons, List.map_cons, first, ih.1 tail]
    · intro same
      cases bs with
      | nil => simp at same
      | cons b bs =>
        rw [List.map_cons, List.map_cons, List.cons.injEq] at same
        refine ⟨b, same.1, ?_⟩
        rw [ih.2 same.2]
        rfl

/-- What a list of successful look-ups has found. -/
theorem mem_of_mapM_eq_ok {f : α → Except ε β} {l : List α} {bs : List β} (h : l.mapM f = .ok bs)
    {b : β} : b ∈ bs ↔ ∃ a ∈ l, f a = .ok b := by
  have same := mapM_eq_ok_iff.1 h
  constructor
  · intro mem
    have : Except.ok b ∈ l.map f := by rw [same]; exact List.mem_map_of_mem mem
    obtain ⟨a, ha, found⟩ := List.mem_map.1 this
    exact ⟨a, ha, found⟩
  · rintro ⟨a, ha, found⟩
    have : Except.ok b ∈ bs.map (Except.ok (ε := ε)) := by
      rw [← same, ← found]
      exact List.mem_map_of_mem ha
    obtain ⟨b', hb', eq⟩ := List.mem_map.1 this
    rw [← Except.ok.inj eq]
    exact hb'

/-- A fold whose steps succeed and keep an invariant succeeds and keeps it. -/
theorem exists_foldlM_eq_ok {inv : β → Prop} {f : β → α → Except ε β} {l : List α}
    (step : ∀ a ∈ l, ∀ b, inv b → ∃ b', f b a = .ok b' ∧ inv b') {b : β} (start : inv b) :
    ∃ b', l.foldlM f b = .ok b' ∧ inv b' := by
  induction l generalizing b with
  | nil => exact ⟨b, rfl, start⟩
  | cons a l ih =>
    obtain ⟨b₁, first, inv₁⟩ := step a (by simp) b start
    obtain ⟨b₂, rest, inv₂⟩ := ih (fun x hx => step x (by simp [hx])) inv₁
    refine ⟨b₂, ?_, inv₂⟩
    rw [List.foldlM_cons, first]
    exact rest

/-- A fold whose steps succeed, add members and leave another part alone: at its end, it has added the
members of all steps and has left that part alone. -/
theorem exists_foldlM_mem_iff {γ δ : Type} {f : β → α → Except ε β} {l : List α}
    {member : β → γ → Prop} {adds : α → γ → Prop} {other : β → δ}
    (step : ∀ a ∈ l, ∀ b, ∃ b', f b a = .ok b' ∧ other b' = other b ∧
      ∀ c, member b' c ↔ member b c ∨ adds a c) (b : β) :
    ∃ b', l.foldlM f b = .ok b' ∧ other b' = other b ∧
      ∀ c, member b' c ↔ member b c ∨ ∃ a ∈ l, adds a c := by
  induction l generalizing b with
  | nil => exact ⟨b, rfl, rfl, by simp⟩
  | cons a l ih =>
    obtain ⟨b₁, first, same, added⟩ := step a List.mem_cons_self b
    obtain ⟨b₂, rest, same', all⟩ := ih (fun x hx => step x (List.mem_cons_of_mem a hx)) b₁
    refine ⟨b₂, ?_, same'.trans same, fun c => ?_⟩
    · rw [List.foldlM_cons, first]
      exact rest
    · simp [all, added, or_assoc]

/-- A fold whose steps keep an invariant keeps it. -/
theorem inv_of_foldlM {inv : β → Prop} {f : β → α → Except ε β} {l : List α}
    (step : ∀ a ∈ l, ∀ b b', f b a = .ok b' → inv b → inv b') {b b' : β}
    (done : l.foldlM f b = .ok b') (start : inv b) : inv b' := by
  induction l generalizing b with
  | nil =>
    obtain rfl := pure_eq_ok_iff.1 done
    exact start
  | cons a l ih =>
    rw [List.foldlM_cons] at done
    obtain ⟨b₁, first, rest⟩ := bind_eq_ok_iff.1 done
    exact ih (fun x mem => step x (List.mem_cons_of_mem a mem)) rest
      (step a List.mem_cons_self b b₁ first start)

/-- A fold whose steps add members has added the members of all steps at its end. -/
theorem mem_iff_of_foldlM {f : β → α → Except ε β} {l : List α} {member : β → Prop}
    {adds : α → Prop}
    (step : ∀ a ∈ l, ∀ b b', f b a = .ok b' → (member b' ↔ member b ∨ adds a)) {b b' : β}
    (done : l.foldlM f b = .ok b') : member b' ↔ member b ∨ ∃ a ∈ l, adds a := by
  induction l generalizing b with
  | nil =>
    obtain rfl := pure_eq_ok_iff.1 done
    simp
  | cons a l ih =>
    rw [List.foldlM_cons] at done
    obtain ⟨b₁, first, rest⟩ := bind_eq_ok_iff.1 done
    rw [ih (fun x mem => step x (List.mem_cons_of_mem a mem)) rest,
      step a List.mem_cons_self b b₁ first]
    simp [or_assoc]

/-- The loop of a filter puts the members with a positive test before those that it has. -/
theorem exists_filterAuxM_mem_iff {f : α → Except ε Bool} {l : List α}
    (h : ∀ a ∈ l, ∃ b, f a = .ok b) (acc : List α) :
    ∃ kept, List.filterAuxM f l acc = .ok kept ∧
      ∀ a, a ∈ kept ↔ a ∈ acc ∨ a ∈ l ∧ f a = .ok true := by
  induction l generalizing acc with
  | nil => exact ⟨acc, rfl, by simp⟩
  | cons x l ih =>
    obtain ⟨b, tested⟩ := h x List.mem_cons_self
    obtain ⟨kept, rest, members⟩ :=
      ih (fun a mem => h a (List.mem_cons_of_mem x mem)) (cond b (x :: acc) acc)
    refine ⟨kept, ?_, fun a => ?_⟩
    · rw [List.filterAuxM, tested]
      exact rest
    · have now : a ∈ cond b (x :: acc) acc ↔ a ∈ acc ∨ a = x ∧ f a = .ok true := by
        cases b with
        | true =>
          rw [cond_true, List.mem_cons, or_comm]
          exact or_congr_right (iff_self_and.2 fun same => same ▸ tested)
        | false =>
          refine (or_iff_left fun ⟨same, positive⟩ => ?_).symm
          rw [same, tested] at positive
          cases positive
      rw [members, now, List.mem_cons, or_assoc, ← or_and_right]

/-- A filter whose tests all succeed keeps the members with a positive test. -/
theorem exists_filterM_mem_iff {f : α → Except ε Bool} {l : List α}
    (h : ∀ a ∈ l, ∃ b, f a = .ok b) :
    ∃ kept, l.filterM f = .ok kept ∧ ∀ a, a ∈ kept ↔ a ∈ l ∧ f a = .ok true := by
  obtain ⟨kept, filtered, members⟩ := exists_filterAuxM_mem_iff h []
  refine ⟨kept.reverse, ?_, fun a => ?_⟩
  · rw [List.filterM, filtered]
    rfl
  · simp [members]

end Except

theorem exists_fetch_eq_ok_iff {e : Entity} {α : Type} {table : Array α} {i : Id e} :
    (∃ a, fetch table i = .ok a) ↔ i.index < table.size := by
  simp only [fetch_eq_ok_iff]
  constructor
  · rintro ⟨a, found⟩
    exact (Array.getElem?_eq_some_iff.1 found).1
  · intro inside
    exact ⟨table[i.index], Array.getElem?_eq_some_iff.2 ⟨inside, rfl⟩⟩

end PointsTo
