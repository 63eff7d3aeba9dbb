import Mathlib.Data.List.DropRight
import PointsTo.Text.Blank
import PointsTo.Text.Lowercase
import PointsTo.Text.Numeral

/-!
# Plain forms and numerals

A plain form of a text is what the text is without the white space around it and in lower case. Beyond
ASCII a character may become anything in lower case that is not ASCII alone, and still all plain forms
of a text are the same ASCII word if one is. A numeral is known by its digits and their value.
-/

namespace PointsTo.Text

/-! ## White space -/

/-- A text stands between white space in another one, and neither starts nor ends with white space. -/
structure Trims (l core : List Char) : Prop where
  between : ∃ before after, l = before ++ core ++ after ∧ (∀ c ∈ before, isBlank c = true) ∧
    ∀ c ∈ after, isBlank c = true
  first : ∀ c ∈ core.head?, isBlank c = false
  last : ∀ c ∈ core.getLast?, isBlank c = false

theorem trim_eq_rdropWhile (l : List Char) : trim l = (l.dropWhile isBlank).rdropWhile isBlank :=
  rfl

theorem trims_trim (l : List Char) : Trims l (trim l) := by
  have shorter : trim l <+: l.dropWhile isBlank := List.rdropWhile_prefix _ _
  constructor
  · refine ⟨l.takeWhile isBlank, (l.dropWhile isBlank).rtakeWhile isBlank, ?_, ?_, ?_⟩
    · rw [List.append_assoc, trim_eq_rdropWhile, List.rdropWhile_append_rtakeWhile,
        List.takeWhile_append_dropWhile]
    · exact fun c mem => List.mem_takeWhile_imp mem
    · exact fun c mem => List.mem_rtakeWhile_imp mem
  · intro c first
    obtain ⟨rest, same⟩ := shorter
    have kept : (l.dropWhile isBlank).head? = some c := by
      rw [← same, List.head?_append_of_ne_nil _ (List.ne_nil_of_mem (List.mem_of_mem_head? first))]
      exact first
    have stops := List.head?_dropWhile_not isBlank l
    rw [kept] at stops
    exact stops
  · intro c last
    obtain ⟨some, rfl⟩ := List.mem_getLast?_eq_getLast last
    exact Bool.eq_false_iff.2 (List.rdropWhile_last_not _ _ some)

/-- What trimming leaves is known by what stands around it. -/
theorem Trims.eq_trim {l core : List Char} (trims : Trims l core) : core = trim l := by
  obtain ⟨before, after, rfl, blankBefore, blankAfter⟩ := trims.between
  rw [trim_eq_rdropWhile, List.append_assoc, List.dropWhile_append_of_pos blankBefore]
  cases core with
  | nil =>
    rw [List.nil_append, List.dropWhile_eq_nil_iff.2 blankAfter, List.rdropWhile_nil]
  | cons c core =>
    have first : ¬isBlank c = true := Bool.eq_false_iff.1 (trims.first c rfl)
    have last : (c :: core).rdropWhile isBlank = c :: core := by
      apply List.rdropWhile_eq_self_iff.2
      intro some
      exact Bool.eq_false_iff.1 (trims.last _ (List.getLast?_eq_getLast_of_ne_nil some))
    have blank : ∀ d ∈ after.reverse, isBlank d = true := by
      intro d mem
      exact blankAfter d (List.mem_reverse.1 mem)
    rw [List.cons_append, List.dropWhile_cons_of_neg first, ← List.cons_append, List.rdropWhile,
      List.reverse_append, List.dropWhile_append_of_pos blank, ← List.rdropWhile, last]

/-! ## Lower case -/

/-- What a character may become in lower case. Of the characters beyond ASCII only the Kelvin sign
becomes ASCII alone. -/
inductive LowersTo : Char → List Char → Prop where
  | ascii {c : Char} : c.toNat < 128 → LowersTo c [c.toLower]
  | kelvin : LowersTo '\u212A' ['k']
  | other {c : Char} {piece : List Char} : 128 ≤ c.toNat → c ≠ '\u212A' →
    (∃ d ∈ piece, 128 ≤ d.toNat) → LowersTo c piece

/-- What a text may become in lower case, one character after the other. -/
inductive Lowers : List Char → List Char → Prop where
  | nil : Lowers [] []
  | cons {c : Char} {piece l low : List Char} : LowersTo c piece → Lowers l low →
    Lowers (c :: l) (piece ++ low)

theorem lowerChar_of_ascii {c : Char} (ascii : c.toNat < 128) : lowerChar c = c.toLower := by
  apply if_neg
  rintro rfl
  exact absurd ascii (by decide)

theorem lowerChar_of_other {c : Char} (other : 128 ≤ c.toNat) (notKelvin : c ≠ '\u212A') :
    lowerChar c = c := by
  rw [lowerChar, if_neg notKelvin]
  apply dif_neg
  rintro ⟨-, small⟩
  have : c.toNat ≤ 'Z'.toNat := small
  have : 'Z'.toNat = 90 := rfl
  omega

theorem lowersTo_lowerChar (c : Char) : LowersTo c [lowerChar c] := by
  rcases Nat.lt_or_ge c.toNat 128 with ascii | other
  · rw [lowerChar_of_ascii ascii]
    exact .ascii ascii
  · by_cases kelvin : c = '\u212A'
    · subst kelvin
      exact .kelvin
    · rw [lowerChar_of_other other kelvin]
      exact .other other kelvin ⟨c, List.mem_singleton_self c, other⟩

theorem lowers_lower (l : List Char) : Lowers l (lower l) := by
  induction l with
  | nil => exact .nil
  | cons c l ih => exact .cons (lowersTo_lowerChar c) ih

/-- A text of ASCII characters. -/
def IsAscii (l : List Char) : Prop :=
  ∀ c ∈ l, c.toNat < 128

/-- If one lower-case form of a text is ASCII, all are the same. -/
theorem Lowers.eq_lower {l low : List Char} (lowers : Lowers l low)
    (ascii : IsAscii low ∨ IsAscii (lower l)) : low = lower l := by
  induction lowers with
  | nil => rfl
  | @cons c piece l low becomes lowers ih =>
    -- the text and its first character are taken apart on either side
    have rest : low = lower l := by
      apply ih
      refine ascii.imp (fun all d mem => all d (List.mem_append_right _ mem)) fun all d mem => ?_
      exact all d (List.mem_cons_of_mem _ mem)
    have first : piece = [lowerChar c] := by
      cases becomes with
      | ascii small => rw [lowerChar_of_ascii small]
      | kelvin => rfl
      | other big notKelvin beyond =>
        exfalso
        rcases ascii with all | all
        · obtain ⟨d, mem, big⟩ := beyond
          exact absurd (all d (List.mem_append_left _ mem)) (Nat.not_lt.2 big)
        · have small := all (lowerChar c) List.mem_cons_self
          rw [lowerChar_of_other big notKelvin] at small
          exact absurd small (Nat.not_lt.2 big)
    rw [first, rest]
    rfl

/-! ## Plain forms -/

/-- A lower-case form of what trimming leaves. -/
def PlainForm (l low : List Char) : Prop :=
  ∃ core, Trims l core ∧ Lowers core low

theorem plainForm_lower_trim (l : List Char) : PlainForm l (lower (trim l)) :=
  ⟨trim l, trims_trim l, lowers_lower (trim l)⟩

theorem PlainForm.eq_of_isAscii {l low : List Char} (plain : PlainForm l low)
    (ascii : IsAscii low ∨ IsAscii (lower (trim l))) : low = lower (trim l) := by
  obtain ⟨core, trims, lowers⟩ := plain
  obtain rfl := trims.eq_trim
  exact lowers.eq_lower ascii

/-- A character that stays as it is, wherever it stands in a text. -/
def IsPlain (c : Char) : Prop :=
  isBlank c = false ∧ c.toNat < 128 ∧ c.toLower = c

instance : DecidablePred IsPlain := fun _ => inferInstanceAs (Decidable (_ ∧ _ ∧ _))

theorem isPlain_of_all {l : List Char} (all : (l.all fun c => decide (IsPlain c)) = true) :
    ∀ c ∈ l, IsPlain c :=
  fun c mem => of_decide_eq_true (List.all_eq_true.1 all c mem)

theorem isPlain_of_isDigit {c : Char} (digit : c.isDigit = true) : IsPlain c := by
  have each : ∀ d < 10, IsPlain (Char.ofNat ('0'.toNat + d)) := by decide
  have range := Char.isDigit_iff_toNat.1 digit
  have plain := each (c.toNat - '0'.toNat) (by
    have : '9'.toNat = '0'.toNat + 9 := rfl
    omega)
  rwa [Nat.add_sub_cancel' range.1, Char.ofNat_toNat] at plain

theorem isAscii_of_isPlain {l : List Char} (plain : ∀ c ∈ l, IsPlain c) : IsAscii l :=
  fun c mem => (plain c mem).2.1

/-- A text of plain characters is its own plain form. -/
theorem plainForm_self {l : List Char} (plain : ∀ c ∈ l, IsPlain c) : PlainForm l l := by
  refine ⟨l, ⟨⟨[], [], ?_, nofun, nofun⟩, ?_, ?_⟩, ?_⟩
  · rw [List.nil_append, List.append_nil]
  · exact fun c first => (plain c (List.mem_of_mem_head? first)).1
  · exact fun c last => (plain c (List.mem_of_getLast? last)).1
  · induction l with
    | nil => exact .nil
    | cons c l ih =>
      obtain ⟨-, ascii, same⟩ := plain c List.mem_cons_self
      have becomes := LowersTo.ascii ascii
      rw [same] at becomes
      exact .cons becomes (ih fun d mem => plain d (List.mem_cons_of_mem c mem))

/-! ## Numerals -/

/-- A text of one decimal digit or more. -/
structure IsDigits (l : List Char) : Prop where
  ne_nil : l ≠ []
  digits : ∀ c ∈ l, c.isDigit = true

/-- A text is a decimal numeral, with a plus sign or without, and has a value. -/
inductive Decimal : List Char → Nat → Prop where
  | unsigned {digits : List Char} : IsDigits digits →
    Decimal digits (Nat.ofDigitChars 10 digits 0)
  | signed {digits : List Char} : IsDigits digits →
    Decimal ('+' :: digits) (Nat.ofDigitChars 10 digits 0)

theorem digitIn_ten (c : Char) :
    digitIn 10 c = if c.isDigit = true then some (c.toNat - '0'.toNat) else none := by
  have decimal : ('0' ≤ c ∧ c ≤ '9') ↔ c.isDigit = true := Char.isDigit_iff_toNat.symm
  by_cases digit : c.isDigit = true
  · have range := Char.isDigit_iff_toNat.1 digit
    have small : c.toNat - '0'.toNat < 10 := by
      have : '0'.toNat = 48 := rfl
      have : '9'.toNat = 57 := rfl
      omega
    rw [digitIn, digitValue, if_pos (decimal.2 digit), if_pos digit, Option.filter_some_pos]
    exact decide_eq_true small
  · rw [digitIn, digitValue, if_neg (decimal.not.2 digit), if_neg digit]
    split
    · exact Option.filter_some_neg (by simp)
    · split
      · exact Option.filter_some_neg (by simp)
      · rfl

/-- Reading on goes through exactly when only digits follow, and gives their value behind that of the
digits before. -/
theorem digitsFrom_ten_eq_some_iff {value k : Nat} {l : List Char} :
    digitsFrom 10 value l = some k ↔
      (∀ c ∈ l, c.isDigit = true) ∧ Nat.ofDigitChars 10 l value = k := by
  induction l generalizing value with
  | nil => simp [digitsFrom]
  | cons c l ih =>
    rw [digitsFrom, digitIn_ten, List.forall_mem_cons, Nat.ofDigitChars_cons]
    by_cases digit : c.isDigit = true
    · rw [if_pos digit, Nat.mul_comm 10 value, and_iff_right digit]
      exact ih
    · simp [digit]

theorem numeral?_ten_eq_some_iff {l : List Char} {k : Nat} :
    numeral? 10 l = some k ↔ IsDigits l ∧ Nat.ofDigitChars 10 l 0 = k := by
  cases l with
  | nil => exact iff_of_false nofun fun digits => digits.1.ne_nil rfl
  | cons c l =>
    rw [numeral?, digitsFrom_ten_eq_some_iff]
    · exact and_congr_left fun _ => ⟨fun all => ⟨List.cons_ne_nil c l, all⟩, IsDigits.digits⟩
    · exact List.cons_ne_nil c l

theorem numeral64?_ten_eq_some_iff {l : List Char} {k : Nat} :
    numeral64? 10 l = some k ↔ (IsDigits l ∧ Nat.ofDigitChars 10 l 0 = k) ∧ k < wordLimit := by
  rw [numeral64?, Option.filter_eq_some_iff, numeral?_ten_eq_some_iff, decide_eq_true_iff]

/-- The numerals that are read are those with a value of 64 bits. -/
theorem decimal64?_eq_some_iff {l : List Char} {k : Nat} :
    decimal64? l = some k ↔ Decimal l k ∧ k < wordLimit := by
  unfold decimal64?
  split
  · rename_i digits
    rw [numeral64?_ten_eq_some_iff]
    apply and_congr_left
    intro _
    constructor
    · rintro ⟨digits, rfl⟩
      exact .signed digits
    · rintro (digits | digits)
      · exact absurd (digits.digits '+' List.mem_cons_self) (by decide)
      · exact ⟨digits, rfl⟩
  · rename_i unsigned
    rw [numeral64?_ten_eq_some_iff]
    apply and_congr_left
    intro _
    constructor
    · rintro ⟨digits, rfl⟩
      exact .unsigned digits
    · rintro (digits | digits)
      · exact ⟨digits, rfl⟩
      · exact absurd rfl (unsigned _)

/-- The digits that are written for a number are a numeral with that value. -/
theorem decimal_toDigits (k : Nat) : Decimal (Nat.toDigits 10 k) k := by
  have digits : IsDigits (Nat.toDigits 10 k) :=
    ⟨Nat.toDigits_ne_nil, fun c mem => Nat.isDigit_of_mem_toDigits (by decide) (by decide) mem⟩
  have := Decimal.unsigned digits
  rwa [Nat.ofDigitChars_ten_toDigits] at this

theorem Decimal.forall_mem {l : List Char} {k : Nat} (decimal : Decimal l k) :
    ∀ c ∈ l, c = '+' ∨ c.isDigit = true := by
  cases decimal with
  | unsigned digits => exact fun c mem => Or.inr (digits.digits c mem)
  | signed digits =>
    intro c mem
    exact (List.mem_cons.1 mem).imp_right (digits.digits c)

end PointsTo.Text
