import TemplateEngine.Proofs.Decimal.Nearest

/-!
Written numbers. Main statements: a numeral of a template is read as the double that its number is
rounded to, and the text of that double is a numeral of a script which denotes it exactly if the
number is not too large.
-/

namespace TemplateEngine.Decimal

structure Exponent where
  mark : Char
  sign : Option Char
  digits : List Char
  mark_eq : mark = 'e' ∨ mark = 'E'
  sign_eq : ∀ c ∈ sign, c = '+' ∨ c = '-'
  digits_ne : digits ≠ []
  isDigit : ∀ c ∈ digits, c.isDigit = true

namespace Exponent

def text (e : Exponent) : List Char :=
  e.mark :: (e.sign.toList ++ e.digits)

def value (e : Exponent) : Int :=
  if e.sign = some '-' then -(digitsValue 0 e.digits : Int) else digitsValue 0 e.digits

end Exponent

/-- A number as it is written: digits, of which some may stand behind a point, and an exponent that
may be left out. -/
structure Numeral where
  whole : List Char
  fraction : Option (List Char)
  exponent : Option Exponent
  isDigit_whole : ∀ c ∈ whole, c.isDigit = true
  isDigit_fraction : ∀ digits ∈ fraction, ∀ c ∈ digits, c.isDigit = true

def IsWhole (digits : List Char) : Prop :=
  digits = ['0'] ∨ ∃ c cs, digits = c :: cs ∧ c ≠ '0'

namespace Numeral

variable (n : Numeral)

def places : List Char :=
  n.fraction.getD []

def fractionText : List Char :=
  n.fraction.elim [] ('.' :: ·)

def exponentText : List Char :=
  n.exponent.elim [] Exponent.text

def exponentValue : Int :=
  n.exponent.elim 0 Exponent.value

def text : List Char :=
  n.whole ++ n.fractionText ++ n.exponentText

def value : ℚ :=
  digitsValue 0 (n.whole ++ n.places) * 10 ^ (n.exponentValue - n.places.length)

theorem value_nonneg : 0 ≤ n.value := by
  unfold value
  positivity

/-- The numbers of templates have a digit in front, and a digit behind the point. -/
def IsNumber : Prop :=
  n.whole ≠ [] ∧ n.fraction ≠ some []

/-- The decimal literals of scripts, but for separators between digits. What stands in front of the
point can only be left out if a digit stands behind the point. -/
def IsLiteral : Prop :=
  IsWhole n.whole ∨ n.whole = [] ∧ n.places ≠ []

end Numeral

theorem Exponent.isDigit_mark (e : Exponent) : e.mark.isDigit = false ∧ e.mark ≠ '.' := by
  rcases e.mark_eq with h | h <;> rw [h] <;> decide

theorem exponent?_text (e : Exponent) : exponent? e.text = some e.value := by
  obtain ⟨d, ds, hd⟩ := List.exists_cons_of_ne_nil e.digits_ne
  have hdigit := e.isDigit d (by simp [hd])
  have hsign : takeSign (e.sign.toList ++ e.digits) = (e.sign == some '-', e.digits) := by
    cases hs : e.sign with
    | none =>
      rw [hd]
      exact takeSign_of_isDigit hdigit ds
    | some c => rcases e.sign_eq c hs with rfl | rfl <;> rfl
  have hmark : (e.mark == 'e' || e.mark == 'E') = true := by simpa using e.mark_eq
  have hempty : e.digits.isEmpty = false := by simpa using e.digits_ne
  have hall : e.digits.all Char.isDigit = true := List.all_eq_true.2 e.isDigit
  rw [Exponent.text, exponent?, hsign]
  simp only [hmark, hempty, hall, Bool.not_false, Bool.and_self, if_true, beq_iff_eq]
  rfl

theorem exponent?_exponentText (n : Numeral) : exponent? n.exponentText = some n.exponentValue := by
  unfold Numeral.exponentText Numeral.exponentValue
  cases n.exponent with
  | none => rfl
  | some e => exact exponent?_text e

/-- Digits are taken up to what is none. -/
theorem span_digits {digits behind : List Char} (hdigits : ∀ c ∈ digits, c.isDigit = true)
    (hbehind : ∀ c ∈ behind.head?, c.isDigit = false) :
    (digits ++ behind).takeWhile Char.isDigit = digits ∧
      (digits ++ behind).dropWhile Char.isDigit = behind := by
  rw [List.takeWhile_append_of_pos hdigits, List.dropWhile_append_of_pos hdigits]
  cases behind with
  | nil => simp
  | cons c cs =>
    have hc : ¬ c.isDigit = true := by simp [hbehind c rfl]
    rw [List.takeWhile_cons_of_neg hc, List.dropWhile_cons_of_neg hc, List.append_nil]
    exact ⟨rfl, rfl⟩

theorem Numeral.head?_exponentText (n : Numeral) :
    ∀ c ∈ n.exponentText.head?, c.isDigit = false ∧ c ≠ '.' := by
  unfold exponentText
  cases n.exponent with
  | none => simp
  | some e =>
    intro c hc
    obtain rfl := Option.some.inj hc
    exact e.isDigit_mark

/-- A number is read as the double that is computed for its digits and its exponent. -/
theorem read?_text {n : Numeral} (h : n.IsNumber) :
    read? n.text = some (ofDecimal false (digitsValue 0 (n.whole ++ n.places))
      (n.exponentValue - n.places.length)) := by
  obtain ⟨c, cs, hwhole⟩ := List.exists_cons_of_ne_nil h.1
  have hc := n.isDigit_whole c (by simp [hwhole])
  have hexponent : ∀ c ∈ n.exponentText.head?, c.isDigit = false :=
    fun c hc => (n.head?_exponentText c hc).1
  have htext : n.text = n.whole ++ (n.fractionText ++ n.exponentText) := List.append_assoc ..
  have hread : read? n.text = unsigned? false n.text := by
    rw [htext, hwhole]
    exact read?_cons hc _
  have hempty : n.whole.isEmpty = false := by simpa using h.1
  have hfraction : n.fractionText ++ n.exponentText = n.exponentText ∧ n.places = [] ∨
      n.fractionText ++ n.exponentText = '.' :: (n.places ++ n.exponentText) ∧
        ∀ c ∈ n.places, c.isDigit = true := by
    unfold Numeral.fractionText Numeral.places
    cases hdigits : n.fraction with
    | none => exact .inl ⟨rfl, rfl⟩
    | some ds => exact .inr ⟨rfl, n.isDigit_fraction ds hdigits⟩
  rw [hread, htext]
  unfold unsigned?
  rcases hfraction with ⟨hrest, hplaces⟩ | ⟨hrest, hplaces⟩
  · obtain ⟨htake, hdrop⟩ := span_digits n.isDigit_whole hexponent
    rw [hrest, hplaces, htake, hdrop]
    dsimp only
    split
    · next after hafter =>
      exact absurd rfl (n.head?_exponentText '.' (by rw [hafter]; rfl)).2
    · simp only [hempty, Bool.false_and, Bool.false_eq_true, if_false, exponent?_exponentText,
        Option.map_some, List.append_nil]
      rfl
  · obtain ⟨htake, hdrop⟩ := @span_digits n.whole ('.' :: (n.places ++ n.exponentText))
      n.isDigit_whole (by simp)
    obtain ⟨htake', hdrop'⟩ := span_digits hplaces hexponent
    rw [hrest, htake, hdrop]
    simp only [htake', hdrop', hempty, Bool.false_and, Bool.false_eq_true, if_false,
      exponent?_exponentText, Option.map_some, digitsValue_append]
    rfl

/-- A number is read as the one double that it is rounded to. -/
theorem exists_read?_text {n : Numeral} (h : n.IsNumber) :
    ∃ x, read? n.text = some x ∧ ∀ y, RoundsTo n.value y ↔ y = x := by
  have hrounds := roundsTo_ofDecimal (digitsValue 0 (n.whole ++ n.places))
    (n.exponentValue - n.places.length)
  refine ⟨_, read?_text h, fun y => ⟨fun hy => hy.unique n.value_nonneg hrounds, ?_⟩⟩
  rintro rfl
  exact hrounds

/-- A number that is not zero begins with another digit than zero. -/
theorem exists_digitChars {k : Nat} (hk : k ≠ 0) : ∃ c cs, digitChars k = c :: cs ∧ c ≠ '0' := by
  unfold digitChars
  induction k using Nat.strongRecOn with
  | ind k ih =>
    rcases Nat.lt_or_ge k 10 with hlt | hge
    · refine ⟨Nat.digitChar k, [], Nat.toDigits_of_lt_base hlt, ?_⟩
      interval_cases k <;> first | exact absurd rfl hk | decide
    · obtain ⟨c, cs, hdigits, hc⟩ := ih (k / 10) (by omega) (by omega)
      refine ⟨c, cs ++ [Nat.digitChar (k % 10)], ?_, hc⟩
      rw [Nat.toDigits_of_base_le (by decide) hge, hdigits]
      rfl

theorem isWhole_digitChars (k : Nat) : IsWhole (digitChars k) := by
  by_cases hk : k = 0
  · exact .inl (hk ▸ rfl)
  · exact .inr (exists_digitChars hk)

section

variable {whole fraction : List Char} (hwhole : ∀ c ∈ whole, c.isDigit = true)
  (hzero : IsWhole whole)
include hwhole hzero

/-- Digits without a point are a numeral of a script. -/
theorem exists_whole : ∃ n : Numeral, n.IsLiteral ∧ n.exponent = none ∧ n.text = whole := by
  refine ⟨⟨whole, none, none, hwhole, by simp⟩, .inl hzero, rfl, ?_⟩
  simp [Numeral.text, Numeral.fractionText, Numeral.exponentText]

/-- Digits with a point among them are a numeral of a script. -/
theorem exists_point (hfraction : ∀ c ∈ fraction, c.isDigit = true) :
    ∃ n : Numeral, n.IsLiteral ∧ n.exponent = none ∧ n.text = whole ++ '.' :: fraction := by
  refine ⟨⟨whole, some fraction, none, hwhole, ?_⟩, .inl hzero, rfl, ?_⟩
  · rintro _ ⟨⟩
    exact hfraction
  · simp [Numeral.text, Numeral.fractionText, Numeral.exponentText]

end

/-- The positional form of a number that is not zero is a numeral of a script. -/
theorem exists_positional {d : Digits} (hd : d.digits ≠ 0) :
    ∃ n : Numeral, n.IsLiteral ∧ n.exponent = none ∧ n.text = d.positional := by
  have hdigits : ∀ c ∈ digitChars d.digits, c.isDigit = true := fun _ => isDigit_of_mem_digitChars
  have hzeros (k : Nat) : ∀ c ∈ List.replicate k '0', c.isDigit = true :=
    fun _ => isDigit_of_mem_zeros
  obtain ⟨c, cs, hcs, hc⟩ := exists_digitChars hd
  unfold Digits.positional
  rw [hcs] at hdigits ⊢
  dsimp only
  split_ifs with hexponent hpoint
  · exact exists_whole (List.forall_mem_append.2 ⟨hdigits, hzeros _⟩) (.inr ⟨c, _, rfl, hc⟩)
  · obtain ⟨k, hk⟩ : ∃ k, (d.exponent + Int.ofNat (c :: cs).length).toNat = k + 1 :=
      ⟨(d.exponent + Int.ofNat (c :: cs).length).toNat - 1, by omega⟩
    rw [hk]
    exact exists_point (fun c hc => hdigits c (List.mem_of_mem_take hc)) (.inr ⟨c, _, rfl, hc⟩)
      fun c hc => hdigits c (List.mem_of_mem_drop hc)
  · exact exists_point (hzeros 1) (.inl rfl) (List.forall_mem_append.2 ⟨hzeros _, hdigits⟩)

theorem decimalValue_text {n : Numeral} (h : n.exponent = none) :
    decimalValue n.text = n.value := by
  have htext : n.text = n.whole ++ n.fractionText := by
    simp [Numeral.text, Numeral.exponentText, h]
  have hvalue : n.value = digitsValue 0 (n.whole ++ n.places) / 10 ^ n.places.length := by
    rw [Numeral.value, Numeral.exponentValue, h, Option.elim_none, zero_sub, zpow_neg, zpow_natCast]
    rfl
  rw [htext, hvalue]
  unfold Numeral.fractionText Numeral.places
  cases n.fraction with
  | none => simpa using decimalValue_whole n.isDigit_whole
  | some ds => exact decimalValue_point n.isDigit_whole ds

theorem exists_integerText {k : Int} (hk : ¬ k < 0) :
    ∃ n : Numeral, n.IsLiteral ∧ n.exponent = none ∧ n.text = (integerText k).toList := by
  rw [integerText, String.toList_ofList, if_neg hk]
  exact exists_whole (fun _ => isDigit_of_mem_digitChars) (isWhole_digitChars k.natAbs)

section

variable {x : Float} (hfinite : x.isFinite = true) (hsign : (Binary.ofFloat x).negative = false)
include hfinite hsign

/-- The text of a finite double that is not below zero has no sign and no exponent. -/
theorem exists_numeral_plainText :
    ∃ n : Numeral, n.IsLiteral ∧ n.exponent = none ∧ n.text = (plainText x).toList := by
  rcases sign_of_isFinite hfinite with ⟨hzero, -, -⟩ | ⟨hpos, -⟩
  · rw [plainText_of_exactInteger? (exactInteger?_of_beq_zero hzero)]
    exact exists_integerText (lt_irrefl 0)
  · cases hinteger : exactInteger? x with
    | some k =>
      rw [plainText_of_exactInteger? hinteger]
      apply exists_integerText
      rw [integer?_neg_iff (integer?_of_exactInteger? hinteger) hpos, hsign]
      exact Bool.false_ne_true
    | none =>
      obtain ⟨_, _, -, -, -, hdigits⟩ := exists_isChosen (isCanonical_ofFloat x) hpos
      rw [plainText_of_shortest hfinite hinteger, hsign, withSign, if_neg Bool.false_ne_true,
        String.toList_ofList]
      exact exists_positional hdigits

/-- The text of a finite double that is not below zero is a numeral of a script, and its number is
rounded to the double. -/
theorem exists_literal :
    ∃ n : Numeral, n.IsLiteral ∧ n.text = (plainText x).toList ∧ (around x).Has n.value := by
  obtain ⟨n, hliteral, hexponent, hn⟩ := exists_numeral_plainText hfinite hsign
  have hpositive : ¬ x < 0 := by
    rcases sign_of_isFinite hfinite with ⟨-, -, h⟩ | ⟨-, h⟩
    · exact h
    · rw [h, hsign]
      exact Bool.false_ne_true
  obtain ⟨cs, htext, -, hhas⟩ := exists_plainText hfinite
  rw [if_neg hpositive] at htext
  refine ⟨n, hliteral, hn, ?_⟩
  rwa [← decimalValue_text hexponent, hn, htext, String.toList_ofList]

end

/-- A text is a decimal literal of a script, and what it denotes is the double. -/
def Denotes (text : String) (x : Float) : Prop :=
  ∃ n : Numeral, n.IsLiteral ∧ n.text = text.toList ∧ RoundsTo n.value x

/-- Infinity is written as a word. -/
theorem plainText_infinity : plainText (ofSignBits false infinityBits) = "inf" := by
  decide +kernel

/-- A numeral of a script begins with a digit or with a point. -/
theorem Numeral.IsLiteral.exists_cons {n : Numeral} (h : n.IsLiteral) :
    ∃ c cs, n.text = c :: cs ∧ (c.isDigit = true ∨ c = '.') := by
  by_cases hne : n.whole = []
  · have hplaces : n.places ≠ [] := by
      rcases h with h | h
      · rcases h with h | ⟨_, _, h, -⟩ <;> simp [h] at hne
      · exact h.2
    obtain ⟨ds, hds⟩ : ∃ ds, n.fraction = some ds := by
      rw [← Option.ne_none_iff_exists']
      intro hnone
      exact hplaces (by simp [places, hnone])
    exact ⟨'.', ds ++ n.exponentText, by simp [text, fractionText, hne, hds], .inr rfl⟩
  · obtain ⟨c, cs, hwhole⟩ := List.exists_cons_of_ne_nil hne
    refine ⟨c, cs ++ (n.fractionText ++ n.exponentText), ?_,
      .inl (n.isDigit_whole c (by simp [hwhole]))⟩
    rw [text, hwhole, List.append_assoc, List.cons_append]

theorem not_denotes_inf (x : Float) : ¬ Denotes "inf" x := by
  rintro ⟨n, hliteral, hn, -⟩
  obtain ⟨c, cs, htext, hc⟩ := hliteral.exists_cons
  have hfirst : c = 'i' := (List.cons.inj (htext.symm.trans hn)).1
  rw [hfirst] at hc
  revert hc
  decide

/-- The text of a double that a number is rounded to is a decimal literal which denotes it exactly
if the number is not too large. -/
theorem RoundsTo.denotes_iff {r : ℚ} {x : Float} (h : RoundsTo r x) :
    Denotes (plainText x) x ↔ r < overflow := by
  cases h with
  | finite hlt hfinite hsign =>
    obtain ⟨n, hliteral, hn, hhas⟩ := exists_literal hfinite hsign
    exact iff_of_true ⟨n, hliteral, hn, roundsTo_of_has hfinite hsign hhas⟩ hlt
  | infinity hle hinfinity =>
    rw [hinfinity, plainText_infinity]
    exact iff_of_false (not_denotes_inf _) (not_lt.2 hle)

end TemplateEngine.Decimal
