import PointsTo.Config.Basic
import PointsTo.Proofs.Text

/-!
# Names of strategies

A strategy is written with one name and read from many: only the plain form of a text matters, a family
has several names, and a depth may have a plus sign and leading zeros. The names that are read are a
grammar on plain forms. A text is read as one strategy at most, and that strategy, written down, is read
as itself.
-/

namespace PointsTo

namespace Strategy

open Text

variable {l low : List Char} {strategy : Strategy} {k : Nat}

/-! ## The grammar -/

/-- The names of the families of strategies. -/
inductive Family : String → (Nat → Strategy) → Prop where
  | call : Family "call" .callSite
  | cfa : Family "cfa" .callSite
  | obj : Family "obj" .object
  | object : Family "object" .object
  | type : Family "type" .type

/-- The plain forms that name a strategy. -/
inductive Spells : List Char → Strategy → Prop where
  | ci : Spells "ci".toList .insensitive
  | insensitive : Spells "insensitive".toList .insensitive
  | deep {numeral : List Char} {k : Nat} {name : String} {family : Nat → Strategy} :
    Decimal numeral k → k < wordLimit → Family name family →
      Spells (numeral ++ '-' :: name.toList) (family k)

theorem Family.depth {name : String} {family : Nat → Strategy} (named : Family name family)
    (k : Nat) : (family k).depth = k := by
  cases named <;> rfl

theorem Spells.depth_lt (spells : Spells low strategy) : strategy.depth < wordLimit := by
  cases spells with
  | ci => decide
  | insensitive => decide
  | deep decimal fits named =>
    rw [named.depth]
    exact fits

theorem isPlain_of_decimal {numeral : List Char} (decimal : Decimal numeral k) :
    ∀ c ∈ numeral, IsPlain c := by
  intro c mem
  rcases decimal.forall_mem c mem with rfl | digit
  · decide
  · exact isPlain_of_isDigit digit

/-- Trimming and lower case leave the names of the grammar as they are. -/
theorem Spells.isPlain (spells : Spells low strategy) : ∀ c ∈ low, IsPlain c := by
  cases spells with
  | ci => exact isPlain_of_all (by decide)
  | insensitive => exact isPlain_of_all (by decide)
  | deep decimal fits named =>
    rw [List.forall_mem_append, List.forall_mem_cons]
    refine ⟨isPlain_of_decimal decimal, by decide, isPlain_of_all ?_⟩
    cases named <;> decide

/-! ## Reading -/

theorem family?_eq_some_iff {name : String} {family : Nat → Strategy} :
    family? name = some family ↔ Family name family := by
  constructor
  · intro found
    unfold family? at found
    split at found
    · rename_i named
      obtain rfl := Option.some.inj found
      rcases named with rfl | rfl
      · exact .call
      · exact .cfa
    · split at found
      · rename_i named
        obtain rfl := Option.some.inj found
        rcases named with rfl | rfl
        · exact .obj
        · exact .object
      · split at found
        · rename_i named
          obtain rfl := Option.some.inj found
          subst named
          exact .type
        · cases found
  · intro named
    cases named <;> rfl

theorem not_mem_of_decimal {numeral : List Char} (decimal : Decimal numeral k) :
    ∀ c ∈ numeral, decide (c ≠ '-') = true := by
  intro c mem
  apply decide_eq_true
  rintro rfl
  rcases decimal.forall_mem '-' mem with same | digit
  · cases same
  · cases digit

/-- A name with a depth is split at its first dash. -/
theorem parseDeep?_eq_some_iff : parseDeep? l = some strategy ↔
    ∃ numeral k name family, l = numeral ++ '-' :: String.toList name ∧ strategy = family k ∧
      Decimal numeral k ∧ k < wordLimit ∧ Family name family := by
  constructor
  · intro found
    have whole : l.takeWhile (fun c => decide (c ≠ '-')) ++ l.dropWhile (fun c => decide (c ≠ '-')) =
        l := List.takeWhile_append_dropWhile
    unfold parseDeep? at found
    cases rest : l.dropWhile fun c => decide (c ≠ '-') with
    | nil =>
      rw [rest] at found
      cases found
    | cons dash name =>
      rw [rest] at found whole
      obtain ⟨k, read, found⟩ := Option.bind_eq_some_iff.1 found
      obtain ⟨family, named, found⟩ := Option.bind_eq_some_iff.1 found
      obtain rfl := Option.some.inj found
      obtain ⟨decimal, fits⟩ := decimal64?_eq_some_iff.1 read
      have stops := List.head?_dropWhile_not (fun c => decide (c ≠ '-')) l
      rw [rest] at stops
      obtain rfl : dash = '-' := by simpa using stops
      refine ⟨_, k, String.ofList name, family, ?_, rfl, decimal, fits, family?_eq_some_iff.1 named⟩
      rw [String.toList_ofList, whole]
  · rintro ⟨numeral, k, name, family, rfl, rfl, decimal, fits, named⟩
    have others := not_mem_of_decimal decimal
    have before : (numeral ++ '-' :: name.toList).takeWhile (fun c => decide (c ≠ '-')) = numeral := by
      rw [List.takeWhile_append_of_pos others]
      exact List.append_nil numeral
    have behind : (numeral ++ '-' :: name.toList).dropWhile (fun c => decide (c ≠ '-')) =
        '-' :: name.toList := by
      rw [List.dropWhile_append_of_pos others]
      rfl
    rw [parseDeep?, before, behind, decimal64?_eq_some_iff.2 ⟨decimal, fits⟩]
    simp only [String.ofList_toList, family?_eq_some_iff.2 named]
    rfl

theorem parse?_eq_some_iff {s : String} :
    parse? s = some strategy ↔ Spells (lower (trim s.toList)) strategy := by
  unfold parse?
  generalize lower (trim s.toList) = low
  have text_eq : ∀ word : String, String.ofList low = word ↔ low = word.toList := by
    intro word
    rw [← String.toList_inj, String.toList_ofList]
  simp only [text_eq]
  constructor
  · intro found
    split at found
    · rename_i named
      obtain rfl := Option.some.inj found
      rcases named with rfl | rfl
      · exact .ci
      · exact .insensitive
    · obtain ⟨numeral, k, name, family, rfl, rfl, decimal, fits, named⟩ :=
        parseDeep?_eq_some_iff.1 found
      exact .deep decimal fits named
  · intro spells
    cases spells with
    | ci => rfl
    | insensitive => rfl
    | @deep numeral k name family decimal fits named =>
      -- the short names have no dash
      have dash : '-' ∈ numeral ++ '-' :: name.toList :=
        List.mem_append_right _ List.mem_cons_self
      rw [if_neg]
      · exact parseDeep?_eq_some_iff.2 ⟨numeral, k, name, family, rfl, rfl, decimal, fits, named⟩
      · rintro (same | same)
        · rw [same] at dash
          exact absurd dash (by decide)
        · rw [same] at dash
          exact absurd dash (by decide)

theorem parse_eq_ok_iff {s : String} : parse s = .ok strategy ↔ parse? s = some strategy := by
  unfold parse
  cases parse? s with
  | none => simp
  | some strategy => simp

theorem parse_eq_error_iff {s : String} {e : ConfigError} :
    parse s = .error e ↔ e = .unknownStrategy s ∧ parse? s = none := by
  unfold parse
  cases parse? s with
  | none => simp [eq_comm]
  | some strategy => simp

/-- Any plain form of a text tells what it is read as. -/
theorem parse?_eq_some_iff_of_plainForm {s : String} (plain : PlainForm s.toList low) :
    parse? s = some strategy ↔ Spells low strategy := by
  rw [parse?_eq_some_iff]
  constructor
  · intro spells
    rwa [plain.eq_of_isAscii (Or.inr (isAscii_of_isPlain spells.isPlain))]
  · intro spells
    rwa [← plain.eq_of_isAscii (Or.inl (isAscii_of_isPlain spells.isPlain))]

/-! ## Writing and reading -/

theorem spells_text (strategy : Strategy) (fits : strategy.depth < wordLimit) :
    Spells strategy.text.toList strategy := by
  have deep : ∀ {k : Nat} {name ending : String} {family : Nat → Strategy}, k < wordLimit →
      Family name family → ending.toList = '-' :: name.toList →
      Spells (toString k ++ ending).toList (family k) := by
    intro k name ending family fits named dash
    have spells := Spells.deep (decimal_toDigits k) fits named
    rwa [String.toList_append, dash, Nat.toString_eq_repr, Nat.toList_repr]
  cases strategy with
  | insensitive => exact .ci
  | callSite k => exact deep fits .call rfl
  | object k => exact deep fits .obj rfl
  | type k => exact deep fits .type rfl

theorem parse_text (strategy : Strategy) (fits : strategy.depth < wordLimit) :
    parse strategy.text = .ok strategy := by
  have spells := spells_text strategy fits
  exact parse_eq_ok_iff.2 ((parse?_eq_some_iff_of_plainForm (plainForm_self spells.isPlain)).2 spells)

/-- What a text is read as is what any plain form of it spells, and a text whose plain forms spell
nothing is refused as it is. -/
structure Reads (s : String) : Prop where
  exists_plainForm : ∃ low, PlainForm s.toList low
  ok_iff {low : List Char} : PlainForm s.toList low → ∀ strategy,
    parse s = .ok strategy ↔ Spells low strategy
  error_iff {low : List Char} : PlainForm s.toList low → ∀ e,
    parse s = .error e ↔ e = .unknownStrategy s ∧ ∀ strategy, ¬Spells low strategy
  again {strategy : Strategy} : parse s = .ok strategy →
    strategy.depth < wordLimit ∧ parse strategy.text = .ok strategy

/-- Strategies are read as they are written, and the texts that are read are those of the grammar. -/
theorem parse_text_and_reads :
    (∀ strategy : Strategy, strategy.depth < wordLimit → parse strategy.text = .ok strategy) ∧
      ∀ s, Reads s := by
  refine ⟨parse_text, fun s => ?_⟩
  constructor
  case exists_plainForm => exact ⟨_, plainForm_lower_trim s.toList⟩
  case ok_iff =>
    intro low plain strategy
    rw [parse_eq_ok_iff, parse?_eq_some_iff_of_plainForm plain]
  case error_iff =>
    intro low plain e
    rw [parse_eq_error_iff, Option.eq_none_iff_forall_ne_some]
    simp only [ne_eq, parse?_eq_some_iff_of_plainForm plain]
  case again =>
    intro strategy read
    have fits := (parse?_eq_some_iff.1 (parse_eq_ok_iff.1 read)).depth_lt
    exact ⟨fits, parse_text strategy fits⟩

/-- A name in capital letters, with a plus sign, leading zeros and white space around it. -/
def paddedName : String := "\u2003+007-CFA\n"

/-- A short name whose first letter becomes two characters in lower case. -/
def dottedName : String := "\u0130nsensitive"

/-- The greatest depth is read as it is written, the padded name is read for what it means, and the
dotted one is refused by its true lower-case form. -/
theorem parse_text_and_reads_paddedName :
    (object (wordLimit - 1)).depth < wordLimit ∧
      parse (object (wordLimit - 1)).text = .ok (object (wordLimit - 1)) ∧
      PlainForm paddedName.toList "+007-cfa".toList ∧ parse paddedName = .ok (callSite 7) ∧
      PlainForm dottedName.toList "i\u0307nsensitive".toList ∧
      parse dottedName = .error (.unknownStrategy dottedName) := by
  have padded : PlainForm paddedName.toList "+007-cfa".toList :=
    plainForm_lower_trim paddedName.toList
  have first : LowersTo '\u0130' ['i', '\u0307'] :=
    .other (by decide) (by decide) ⟨'\u0307', by decide, by decide⟩
  have dotted : PlainForm dottedName.toList "i\u0307nsensitive".toList :=
    ⟨dottedName.toList, trims_trim dottedName.toList, .cons first (lowers_lower "nsensitive".toList)⟩
  have seven : Decimal "+007".toList 7 := .signed ⟨by decide, List.all_eq_true.1 (by decide)⟩
  have spells : Spells "+007-cfa".toList (callSite 7) := .deep seven (by decide) .cfa
  refine ⟨by decide, parse_text_and_reads.1 _ (by decide), padded, ?_, dotted, ?_⟩
  · exact ((parse_text_and_reads.2 paddedName).ok_iff padded _).2 spells
  · refine ((parse_text_and_reads.2 dottedName).error_iff dotted _).2 ⟨rfl, fun strategy spells => ?_⟩
    exact absurd (spells.isPlain '\u0307' (by decide)) (by decide)

end Strategy

end PointsTo
