import TemplateEngine.Proofs.Decimal.Shortest
import TemplateEngine.Proofs.Decimal.Text

/-!
What the texts of doubles say. Main statements: the text of a finite double stands for a number that
is rounded to it, so that doubles with the same text are equal, as equal doubles have the same text.
-/

namespace TemplateEngine.Decimal

def decimalValue (cs : List Char) : ℚ :=
  let fraction := (cs.dropWhile Char.isDigit).drop 1
  digitsValue (digitsValue 0 (cs.takeWhile Char.isDigit)) fraction / 10 ^ fraction.length

theorem decimalValue_whole {cs : List Char} (h : ∀ c ∈ cs, c.isDigit = true) :
    decimalValue cs = digitsValue 0 cs := by
  unfold decimalValue
  rw [List.takeWhile_eq_self_iff.2 h, List.dropWhile_eq_nil_iff.2 h]
  simp [digitsValue]

theorem decimalValue_point {whole : List Char} (h : ∀ c ∈ whole, c.isDigit = true)
    (fraction : List Char) :
    decimalValue (whole ++ '.' :: fraction) =
      digitsValue 0 (whole ++ fraction) / 10 ^ fraction.length := by
  have hpoint : ¬ ('.').isDigit = true := by decide
  unfold decimalValue
  rw [List.takeWhile_append_of_pos h, List.dropWhile_append_of_pos h,
    List.takeWhile_cons_of_neg hpoint, List.dropWhile_cons_of_neg hpoint, List.append_nil]
  simp [digitsValue]

theorem digitsValue_append (start : Nat) (front back : List Char) :
    digitsValue start (front ++ back) = digitsValue (digitsValue start front) back :=
  List.foldl_append

theorem digitsValue_zeros (start k : Nat) :
    digitsValue start (List.replicate k '0') = start * 10 ^ k := by
  induction k generalizing start with
  | zero => simp [digitsValue]
  | succ k ih =>
    show digitsValue (10 * start + 0) (List.replicate k '0') = _
    rw [ih, pow_succ]
    ring

theorem digitsValue_digitChars (n : Nat) : digitsValue 0 (digitChars n) = n := by
  rw [digitsValue_eq_ofDigitChars]
  exact Nat.ofDigitChars_ten_toDigits

theorem isDigit_of_mem_digitChars {n : Nat} {c : Char} (hc : c ∈ digitChars n) :
    c.isDigit = true :=
  isDigit_of_mem_toDigits hc

theorem isDigit_of_mem_zeros {k : Nat} {c : Char} (hc : c ∈ List.replicate k '0') :
    c.isDigit = true := by
  rw [List.eq_of_mem_replicate hc]
  decide

theorem decimalValue_digitChars (n : Nat) : decimalValue (digitChars n) = n := by
  rw [decimalValue_whole fun _ => isDigit_of_mem_digitChars, digitsValue_digitChars]

/-- The positional form says what the digits stand for. -/
theorem decimalValue_positional (d : Digits) : decimalValue d.positional = d.value := by
  have hlength : 0 < (digitChars d.digits).length := Nat.length_toDigits_pos
  have hvalue := digitsValue_digitChars d.digits
  have hdigits : ∀ c ∈ digitChars d.digits, c.isDigit = true := fun _ => isDigit_of_mem_digitChars
  have hplaces (places : Nat) (h : d.exponent = -places) :
      d.value = d.digits / 10 ^ places := by
    unfold Digits.value
    rw [h, zpow_neg, zpow_natCast]
    rfl
  unfold Digits.positional
  generalize digitChars d.digits = cs at *
  simp only [Int.ofNat_eq_natCast]
  split
  · next h =>
    obtain ⟨k, hk⟩ := Int.eq_ofNat_of_zero_le h
    have hall : ∀ c ∈ cs ++ List.replicate k '0', c.isDigit = true :=
      List.forall_mem_append.2 ⟨hdigits, fun _ => isDigit_of_mem_zeros⟩
    rw [hk, Int.toNat_natCast, decimalValue_whole hall, digitsValue_append, hvalue,
      digitsValue_zeros]
    unfold Digits.value
    rw [hk, zpow_natCast]
    push_cast
    rfl
  · next h =>
    split
    · next hpoint =>
      rw [decimalValue_point fun c hc => hdigits c (List.mem_of_mem_take hc), List.take_append_drop,
        hvalue, List.length_drop]
      exact (hplaces _ (by omega)).symm
    · next hpoint =>
      have hzero : ∀ c ∈ ['0'], c.isDigit = true := by simp
      rw [show ∀ zeros : List Char, '0' :: '.' :: zeros ++ cs = ['0'] ++ '.' :: (zeros ++ cs) from
        fun _ => rfl, decimalValue_point hzero, digitsValue_append, digitsValue_append]
      show (digitsValue (digitsValue 0 (List.replicate _ '0')) cs : ℚ) / _ = _
      rw [digitsValue_zeros, Nat.zero_mul, hvalue, List.length_append, List.length_replicate]
      exact (hplaces _ (by omega)).symm

section

variable {x y : Float}

def size (x : Float) : ℚ :=
  (Binary.ofFloat x).mantissa * 2 ^ (Binary.ofFloat x).exponent

def around (x : Float) : Interval :=
  Interval.around (Binary.ofFloat x).mantissa (Binary.ofFloat x).exponent

theorem isCanonical_ofFloat (x : Float) :
    IsCanonical (Binary.ofFloat x).mantissa (Binary.ofFloat x).exponent := by
  simp only [Binary.ofFloat, power_eq, Int.ofNat_eq_natCast]
  generalize x.toBits.toNat = bits
  by_cases hfield : bits / 2 ^ 52 % 2 ^ 11 = 0 <;> simp only [hfield, if_true, if_false] <;>
    exact ⟨by omega, by omega, by omega⟩

theorem center_eq_size (x : Float) : (around x).center = size x := by
  unfold around size
  rw [center_around, zpow_sub₀ two_ne_zero]
  ring

theorem has_size (x : Float) : (around x).Has (size x) := by
  rcases Nat.eq_zero_or_pos (Binary.ofFloat x).mantissa with hzero | hpos
  · unfold around size
    rw [hzero, Nat.cast_zero, zero_mul, ← zero_mul (2 ^ ((Binary.ofFloat x).exponent - 2) : ℚ),
      has_around_iff]
    simp
  · rw [← center_eq_size]
    exact (isAround_around hpos).has_center

/-- The integer that a double stands for has its size. -/
theorem natAbs_of_integer? {b : Binary} {n : Int} (h : b.integer? = some n) :
    (n.natAbs : ℚ) = b.mantissa * 2 ^ b.exponent := by
  obtain ⟨k, hk, rfl⟩ := Option.map_eq_some_iff.1 h
  have habs : (if b.negative then -Int.ofNat k else Int.ofNat k).natAbs = k := by
    split <;> simp
  rw [habs]
  split at hk
  · next hexponent =>
    obtain ⟨places, hplaces⟩ := Int.eq_ofNat_of_zero_le hexponent
    obtain rfl := Option.some.inj hk
    rw [power_eq, hplaces, Int.toNat_natCast, zpow_natCast]
    push_cast
    rfl
  · next hexponent =>
    obtain ⟨places, hplaces⟩ : ∃ places : Nat, b.exponent = -places :=
      ⟨(-b.exponent).toNat, by omega⟩
    rw [Option.ite_none_right_eq_some, Option.some.injEq, power_eq, hplaces, neg_neg,
      Int.toNat_natCast] at hk
    obtain ⟨hrest, rfl⟩ := hk
    rw [Nat.cast_div (Nat.dvd_of_mod_eq_zero hrest) (by positivity), hplaces, zpow_neg,
      zpow_natCast]
    push_cast
    rfl

/-- A finite double is zero, or it has a mantissa and its sign tells whether it is below zero. -/
theorem sign_of_isFinite (hfinite : x.isFinite = true) :
    (x == 0) = true ∧ (Binary.ofFloat x).mantissa = 0 ∧ ¬ x < 0 ∨
      0 < (Binary.ofFloat x).mantissa ∧ (x < 0 ↔ (Binary.ofFloat x).negative = true) := by
  rw [isFinite_iff_unpackedValue?] at hfinite
  rw [lt_zero_iff, beq_zero_iff]
  cases hx : x.toModel.unpack with
  | zero sign =>
    have hvalue := ofFloat_eq_of_unpackedValue? (x := x) (by rw [hx]; rfl)
    rw [hvalue]
    exact .inl ⟨⟨sign, rfl⟩, rfl, Bool.false_ne_true⟩
  | finite sign mantissa exponent hpos =>
    have hvalue := ofFloat_eq_of_unpackedValue? (x := x) (by rw [hx]; rfl)
    rw [hvalue]
    exact .inr ⟨hpos, Iff.rfl⟩
  | infinity sign =>
    rw [hx] at hfinite
    cases hfinite
  | notANumber =>
    rw [hx] at hfinite
    cases hfinite

theorem not_isNaN_of_isFinite (hfinite : x.isFinite = true) :
    x.isNaN = false ∧ x.isInf = false := by
  have hnan : x.isNaN = x.toModel.unpack.isNaN := rfl
  have hinf : x.isInf = x.toModel.unpack.isInf := rfl
  have hfinite : x.toModel.unpack.isFinite = true := hfinite
  rw [hnan, hinf]
  cases hx : x.toModel.unpack with
  | zero | finite => exact ⟨rfl, rfl⟩
  | infinity | notANumber =>
    rw [hx] at hfinite
    cases hfinite

theorem plainText_of_exactInteger? {n : Int} (h : exactInteger? x = some n) :
    plainText x = integerText n := by
  unfold plainText
  rw [h]

theorem plainText_of_shortest (hfinite : x.isFinite = true) (h : exactInteger? x = none) :
    plainText x = withSign (Binary.ofFloat x).negative
      (shortest .up (Binary.ofFloat x).mantissa (Binary.ofFloat x).exponent).positional := by
  obtain ⟨hnan, hinf⟩ := not_isNaN_of_isFinite hfinite
  unfold plainText
  rw [h, hnan, hinf]
  rfl

/-- The text of a finite double: a minus if it is below zero, and digits that stand for a number
which is rounded to it. -/
theorem exists_plainText (hfinite : x.isFinite = true) :
    ∃ cs, plainText x = String.ofList (if x < 0 then '-' :: cs else cs) ∧
      (∃ c more, cs = c :: more ∧ c.isDigit = true) ∧ (around x).Has (decimalValue cs) := by
  rcases sign_of_isFinite hfinite with ⟨hzero, hmantissa, hsign⟩ | ⟨hpos, hsign⟩
  · refine ⟨digitChars 0, ?_, exists_cons_digitChars 0, ?_⟩
    · rw [plainText_of_exactInteger? (exactInteger?_of_beq_zero hzero), if_neg hsign]
      rfl
    · have hsize : size x = 0 := by
        unfold size
        rw [hmantissa, Nat.cast_zero, zero_mul]
      rw [decimalValue_digitChars, Nat.cast_zero, ← hsize]
      exact has_size x
  cases hinteger : exactInteger? x with
  | some n =>
    have hn := integer?_of_exactInteger? hinteger
    refine ⟨digitChars n.natAbs, ?_, exists_cons_digitChars n.natAbs, ?_⟩
    · rw [plainText_of_exactInteger? hinteger]
      unfold integerText
      simp only [(integer?_neg_iff hn hpos).trans hsign.symm]
    · rw [decimalValue_digitChars, natAbs_of_integer? hn]
      exact has_size x
  | none =>
    refine ⟨(shortest .up (Binary.ofFloat x).mantissa (Binary.ofFloat x).exponent).positional, ?_,
      exists_cons_positional _, ?_⟩
    · rw [plainText_of_shortest hfinite hinteger]
      unfold withSign
      simp only [← hsign]
    · obtain ⟨places, k, hchosen, hvalue, -⟩ := exists_isChosen (isCanonical_ofFloat x) hpos
      rw [decimalValue_positional, hvalue]
      exact hchosen.nearest.has

/-- The text of a double follows from its value. -/
theorem plainText_of_beq (h : (x == y) = true) : plainText x = plainText y := by
  rcases eq_or_zero_of_beq h with rfl | ⟨hx, hy⟩
  · rfl
  · rw [plainText_of_exactInteger? (exactInteger?_of_beq_zero hx),
      plainText_of_exactInteger? (exactInteger?_of_beq_zero hy)]

inductive Unsigned (x : Float) : List Char → Prop where
  | digits {cs : List Char} (hfinite : x.isFinite = true)
    (hdigit : ∃ c more, cs = c :: more ∧ c.isDigit = true)
    (hhas : (around x).Has (decimalValue cs)) : Unsigned x cs
  | infinity (hinf : x.isInf = true) : Unsigned x ['i', 'n', 'f']

theorem isFinite_or_isInf (hx : x.isNaN = false) :
    x.isFinite = true ∨ x.isFinite = false ∧ x.isInf = true := by
  have hnan : x.toModel.unpack.isNaN = false := hx
  show x.toModel.unpack.isFinite = true ∨
    x.toModel.unpack.isFinite = false ∧ x.toModel.unpack.isInf = true
  cases hunpack : x.toModel.unpack with
  | zero | finite => exact .inl rfl
  | infinity => exact .inr ⟨rfl, rfl⟩
  | notANumber =>
    rw [hunpack] at hnan
    cases hnan

theorem exists_unsigned (hx : x.isNaN = false) :
    ∃ cs, plainText x = String.ofList (if x < 0 then '-' :: cs else cs) ∧ Unsigned x cs := by
  rcases isFinite_or_isInf hx with hfinite | ⟨hfinite, hinf⟩
  · obtain ⟨cs, htext, hdigit, hhas⟩ := exists_plainText hfinite
    exact ⟨cs, htext, .digits hfinite hdigit hhas⟩
  · refine ⟨['i', 'n', 'f'], ?_, .infinity hinf⟩
    have htext : plainText x = if x < 0 then "-inf" else "inf" := by
      unfold plainText
      rw [exactInteger?_of_not_isFinite hfinite, hx, hinf]
      rfl
    rw [htext]
    split <;> rfl

theorem Unsigned.head?_ne {cs : List Char} (h : Unsigned x cs) : cs.head? ≠ some '-' := by
  cases h with
  | digits _ hdigit _ =>
    obtain ⟨c, more, rfl, hc⟩ := hdigit
    rintro heq
    obtain rfl := Option.some.inj heq
    exact absurd hc (by decide)
  | infinity _ => decide

theorem beq_of_isInf (hx : x.isInf = true) (hy : y.isInf = true) (hsign : x < 0 ↔ y < 0) :
    (x == y) = true := by
  have hx : x.toModel.unpack.isInf = true := hx
  have hy : y.toModel.unpack.isInf = true := hy
  rw [lt_zero_iff, lt_zero_iff] at hsign
  show (x.toModel.unpack.compare y.toModel.unpack == some .eq) = true
  cases hunpack : x.toModel.unpack with
  | infinity s =>
    cases hunpack' : y.toModel.unpack with
    | infinity t =>
      rw [hunpack, hunpack'] at hsign
      cases s <;> cases t <;> first | rfl | simp [isBelowZero] at hsign
    | zero | finite | notANumber => simp [hunpack', Float.Model.UnpackedFloat.isInf] at hy
  | zero | finite | notANumber => simp [hunpack, Float.Model.UnpackedFloat.isInf] at hx

/-- Finite doubles that a common number is rounded to are equal if their signs are. -/
theorem beq_of_has {r : ℚ} (hx : x.isFinite = true) (hy : y.isFinite = true)
    (hr : (around x).Has r) (hr' : (around y).Has r) (hsign : x < 0 ↔ y < 0) :
    (x == y) = true := by
  obtain ⟨hmantissa, hexponent⟩ :=
    eq_of_has (isCanonical_ofFloat x) (isCanonical_ofFloat y) hr hr'
  rcases sign_of_isFinite hx with ⟨hzero, hm, -⟩ | ⟨hm, hnegative⟩ <;>
    rcases sign_of_isFinite hy with ⟨hzero', hm', -⟩ | ⟨hm', hnegative'⟩
  · exact BEq.trans hzero (BEq.symm hzero')
  · omega
  · omega
  · have hparts : Binary.ofFloat x = Binary.ofFloat y := by
      rw [Binary.mk.injEq]
      exact ⟨Bool.eq_iff_iff.2 (hnegative.symm.trans (hsign.trans hnegative')), hmantissa,
        hexponent⟩
    rw [ofFloat_injective hparts, Float.beq_self_iff]
    rintro rfl
    cases hy

/-- A double is known by what stands behind its sign and by whether it is below zero. -/
theorem Unsigned.beq {cs : List Char} (hx : Unsigned x cs) (hy : Unsigned y cs)
    (hsign : x < 0 ↔ y < 0) : (x == y) = true := by
  have hword {z : Float} (hz : Unsigned z ['i', 'n', 'f']) : z.isInf = true := by
    cases hz with
    | digits _ hdigit _ =>
      obtain ⟨c, more, heq, hc⟩ := hdigit
      obtain ⟨rfl, -⟩ := List.cons.inj heq
      cases hc
    | infinity hinf => exact hinf
  cases hx with
  | infinity hinf => exact beq_of_isInf hinf (hword hy) hsign
  | digits hfinite hdigit hhas =>
    cases hy with
    | infinity hinf => exact beq_of_isInf (hword (.digits hfinite hdigit hhas)) hinf hsign
    | digits hfinite' _ hhas' => exact beq_of_has hfinite hfinite' hhas hhas' hsign

/-- Doubles with the same text are equal. -/
theorem beq_of_plainText (hx : x.isNaN = false) (hy : y.isNaN = false)
    (h : plainText x = plainText y) : (x == y) = true := by
  obtain ⟨cs, hcs, hx⟩ := exists_unsigned hx
  obtain ⟨cs', hcs', hy⟩ := exists_unsigned hy
  rw [hcs, hcs', String.ofList_inj] at h
  have hhead := hx.head?_ne
  have hhead' := hy.head?_ne
  have hparts : cs = cs' ∧ (x < 0 ↔ y < 0) := by
    split_ifs at h with hsign hsign' hsign'
    · exact ⟨List.tail_eq_of_cons_eq h, iff_of_true hsign hsign'⟩
    · rw [← h] at hhead'
      exact absurd rfl hhead'
    · rw [h] at hhead
      exact absurd rfl hhead
    · exact ⟨h, iff_of_false hsign hsign'⟩
  obtain ⟨rfl, hsign⟩ := hparts
  exact hx.beq hy hsign

/-- Two numbers have the same text exactly if they are equal. -/
theorem plainText_eq_iff (hx : x.isNaN = false) (hy : y.isNaN = false) :
    plainText x = plainText y ↔ (x == y) = true :=
  ⟨beq_of_plainText hx hy, plainText_of_beq⟩

end

end TemplateEngine.Decimal
