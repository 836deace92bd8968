import TemplateEngine.Decimal.Reader
import TemplateEngine.Proofs.Decimal.Bits

/-!
Natural numbers as doubles. Main statements: the digits of a natural number read as the double
nearest to it, and below `2 ^ 53` that double stands for the number itself.
-/

namespace TemplateEngine.Decimal

theorem digitsValue_eq_ofDigitChars (digits : List Char) (start : Nat) :
    digitsValue start digits = Nat.ofDigitChars 10 digits start := by
  rw [digitsValue, Nat.ofDigitChars_eq_foldl]

theorem isDigit_of_mem_toDigits {n : Nat} {c : Char} (hc : c ∈ Nat.toDigits 10 n) :
    c.isDigit = true :=
  Nat.isDigit_of_mem_toDigits (by omega) (by omega) hc

theorem toLower_of_isDigit {c : Char} (hc : c.isDigit = true) : c.toLower = c := by
  unfold Char.toLower
  rw [dif_neg]
  simp only [Char.isDigit, Bool.and_eq_true, decide_eq_true_eq, UInt32.le_iff_toNat_le] at hc
  simp only [ge_iff_le, UInt32.le_iff_toNat_le, not_and]
  intro hlarge
  exact absurd (Nat.le_trans hlarge hc.2) (by decide)

theorem toDigits_eq_cons (n : Nat) :
    ∃ c cs, Nat.toDigits 10 n = c :: cs ∧ ∀ d ∈ c :: cs, d.isDigit = true := by
  obtain ⟨c, cs, h⟩ := List.exists_cons_of_ne_nil (Nat.toDigits_ne_nil (n := n) (b := 10))
  refine ⟨c, cs, h, ?_⟩
  intro d hd
  rw [← h] at hd
  exact isDigit_of_mem_toDigits hd

theorem ofDecimal_zero_exponent (n : Nat) : ofDecimal false n 0 = ofInteger n := by
  unfold ofDecimal ofInteger
  by_cases hn : n = 0
  · subst hn
    simp [nearestBits]
  · have hsmall : ¬ (400 : Int) < 0 := by omega
    have hlarge : ¬ (0 : Int) < -(400 + Int.ofNat n.log2) := by
      have := Int.natCast_nonneg n.log2
      simp only [Int.ofNat_eq_natCast]
      omega
    have hsign : decide ((n : Int) < 0) = false := by simp
    rw [if_neg hn, if_neg hsmall, if_neg hlarge, hsign]
    simp [scaleDown]

theorem takeSign_of_isDigit {c : Char} (hc : c.isDigit = true) (cs : List Char) :
    takeSign (c :: cs) = (false, c :: cs) := by
  unfold takeSign
  split
  · next h =>
    obtain ⟨rfl, -⟩ := List.cons.inj h
    simp at hc
  · next h =>
    obtain ⟨rfl, -⟩ := List.cons.inj h
    simp at hc
  · rfl

/-- A text with a digit in front has no sign and is none of the words. -/
theorem read?_cons {c : Char} (hc : c.isDigit = true) (cs : List Char) :
    read? (c :: cs) = unsigned? false (c :: cs) := by
  have hword : ∀ word : String, (word.toList.head?.all fun d => !d.isDigit) = true →
      (String.ofList ((c :: cs).map Char.toLower) == word) = false := by
    intro word hhead
    rw [beq_eq_false_iff_ne]
    rintro rfl
    simp only [String.toList_ofList, List.map_cons, List.head?_cons, Option.all_some] at hhead
    rw [toLower_of_isDigit hc, hc] at hhead
    simp at hhead
  rw [read?, takeSign_of_isDigit hc]
  simp only [hword "inf" rfl, hword "infinity" rfl, hword "nan" rfl, Bool.or_self,
    Bool.false_eq_true, if_false]

/-- The digits of a natural number are read as the double nearest to it. -/
theorem read?_toDigits (n : Nat) : read? (Nat.toDigits 10 n) = some (ofInteger n) := by
  obtain ⟨c, cs, hdigits, hall⟩ := toDigits_eq_cons n
  have htake : (c :: cs).takeWhile Char.isDigit = c :: cs :=
    List.takeWhile_eq_self_iff.2 hall
  have hdrop : (c :: cs).dropWhile Char.isDigit = [] :=
    List.dropWhile_eq_nil_iff.2 hall
  have hvalue : digitsValue 0 (c :: cs) = n := by
    rw [digitsValue_eq_ofDigitChars, ← hdigits, Nat.ofDigitChars_ten_toDigits]
  rw [hdigits, read?_cons (hall c (by simp))]
  unfold unsigned?
  simp only [htake, hdrop, hvalue]
  exact congrArg some (ofDecimal_zero_exponent n)

theorem log2_le_of_lt {n : Nat} (hbound : n < 2 ^ 53) : n.log2 ≤ 52 := by
  by_cases hn : n = 0
  · subst hn
    simp
  · have := (Nat.log2_lt hn).2 hbound
    omega

theorem scaleDown_log2 {n : Nat} (hlog : n.log2 ≤ 52) :
    scaleDown 2 n 1 (Int.ofNat n.log2 - 52) = (n * 2 ^ (52 - n.log2), 1) := by
  unfold scaleDown
  rw [Int.ofNat_eq_natCast]
  split
  · have : n.log2 = 52 := by omega
    simp [this]
  · have : (-((n.log2 : Int) - 52)).toNat = 52 - n.log2 := by omega
    rw [this, power_eq]

/-- The leading binary digit moved to place 52. -/
theorem shifted_bounds {n : Nat} (hn : n ≠ 0) (hlog : n.log2 ≤ 52) :
    2 ^ 52 ≤ n * 2 ^ (52 - n.log2) ∧ n * 2 ^ (52 - n.log2) < 2 ^ 53 := by
  have hlow : 2 ^ n.log2 ≤ n := (Nat.le_log2 hn).1 (Nat.le_refl _)
  have hhigh : n < 2 ^ (n.log2 + 1) := (Nat.log2_lt hn).1 (by omega)
  constructor
  · calc 2 ^ 52 = 2 ^ n.log2 * 2 ^ (52 - n.log2) := by rw [← Nat.pow_add]; congr 1; omega
      _ ≤ n * 2 ^ (52 - n.log2) := Nat.mul_le_mul_right _ hlow
  · calc n * 2 ^ (52 - n.log2) < 2 ^ (n.log2 + 1) * 2 ^ (52 - n.log2) :=
          Nat.mul_lt_mul_of_pos_right hhigh (Nat.pow_pos (by omega))
      _ = 2 ^ 53 := by rw [← Nat.pow_add]; congr 1; omega

theorem roundHalfEven_one (n : Nat) : roundHalfEven n 1 = n := by
  simp [roundHalfEven, Nat.mod_one]

/-- Below `2 ^ 53` no digit is lost: the fraction is the number without its first binary digit,
moved to the front. -/
theorem nearestBits_one {n : Nat} (hn : n ≠ 0) (hbound : n < 2 ^ 53) :
    ∃ fraction, nearestBits n 1 = (n.log2 + 1023) * 2 ^ 52 + fraction ∧
      2 ^ 52 + fraction = n * 2 ^ (52 - n.log2) ∧ fraction < 2 ^ 52 := by
  have hlog := log2_le_of_lt hbound
  have hscale := scaleDown_log2 hlog
  obtain ⟨hlow, hhigh⟩ := shifted_bounds hn hlog
  generalize n * 2 ^ (52 - n.log2) = shifted at hscale hlow hhigh
  refine ⟨shifted - 2 ^ 52, ?_, by omega, by omega⟩
  have hguess : max (Int.ofNat n.log2 - Int.ofNat (Nat.log2 1) - 52) (-1074) =
      Int.ofNat n.log2 - 52 := by
    rw [show Nat.log2 1 = 0 from rfl, Int.ofNat_eq_natCast, Int.ofNat_eq_natCast]
    omega
  have hplace : (Int.ofNat n.log2 - 52 + 1074).toNat = n.log2 + 1022 := by
    rw [Int.ofNat_eq_natCast]
    omega
  have hfull :
      (decide (shifted < power 2 52) && decide (-1074 < Int.ofNat n.log2 - 52)) = false := by
    rw [decide_eq_false (show ¬ shifted < power 2 52 by rw [power_eq]; omega), Bool.false_and]
  unfold nearestBits
  simp only [if_neg hn, hguess, hscale, Nat.div_one, hfull, Bool.false_eq_true, if_false, hplace,
    roundHalfEven_one]
  rw [infinityBits, power_eq]
  omega

/-- The double nearest to a natural number below `2 ^ 53` has all its digits. -/
theorem ofFloat_ofInteger {n : Nat} (hn : n ≠ 0) (hbound : n < 2 ^ 53) :
    Binary.ofFloat (ofInteger n) = ⟨false, n * 2 ^ (52 - n.log2), (n.log2 : Int) - 52⟩ := by
  have hsign : decide ((n : Int) < 0) = false := by simp
  obtain ⟨fraction, hbits, hshift, hfraction⟩ := nearestBits_one hn hbound
  have hlog := log2_le_of_lt hbound
  have hfield : ((n.log2 + 1023) * 2 ^ 52 + fraction) / 2 ^ 52 = n.log2 + 1023 := by omega
  have hrest : ((n.log2 + 1023) * 2 ^ 52 + fraction) % 2 ^ 52 = fraction := by omega
  have hplace : ((max (n.log2 + 1023) 1 : Nat) : Int) - 1075 = (n.log2 : Int) - 52 := by omega
  unfold ofInteger
  rw [hsign, Int.natAbs_natCast, hbits, ofFloat_ofSignBits false
    (show (n.log2 + 1023) * 2 ^ 52 + fraction ≤ infinityBits by rw [infinityBits, power_eq]; omega)]
  unfold mantissaOf exponentOf
  rw [hfield, hrest, if_neg (show ¬ n.log2 + 1023 = 0 by omega), hshift, hplace]

/-- Zero of either sign. -/
theorem integer?_zero (negative : Bool) : (Binary.mk negative 0 (-1074)).integer? = some 0 := by
  rw [Binary.integer?]
  simp only [Nat.zero_mod, Nat.zero_div, if_true]
  rw [if_neg (by decide)]
  cases negative <;> rfl

/-- Below `2 ^ 53` the double nearest to a natural number stands for the number itself. -/
theorem integer?_ofInteger {n : Nat} (hbound : n < 2 ^ 53) :
    (Binary.ofFloat (ofInteger n)).integer? = some (n : Int) := by
  by_cases hn : n = 0
  · subst hn
    have hword : (ofInteger 0).toBits.toNat = 0 := rfl
    have hfloat : Binary.ofFloat (ofInteger 0) =
        { negative := false, mantissa := 0, exponent := -1074 } := by
      unfold Binary.ofFloat
      simp only [hword]
      rfl
    rw [Int.natCast_zero, hfloat, integer?_zero]
  have hlog := log2_le_of_lt hbound
  have hsize : (if (0 : Int) ≤ (n.log2 : Int) - 52 then
        some (n * 2 ^ (52 - n.log2) * power 2 ((n.log2 : Int) - 52).toNat)
      else
        if n * 2 ^ (52 - n.log2) % power 2 (-((n.log2 : Int) - 52)).toNat = 0 then
          some (n * 2 ^ (52 - n.log2) / power 2 (-((n.log2 : Int) - 52)).toNat)
        else none) = some n := by
    split
    · have : n.log2 = 52 := by omega
      simp [this]
    · have hunit : (-((n.log2 : Int) - 52)).toNat = 52 - n.log2 := by omega
      rw [hunit, power_eq, Nat.mul_mod_left, if_pos rfl,
        Nat.mul_div_cancel _ (Nat.pow_pos (by omega))]
  rw [ofFloat_ofInteger hn hbound, Binary.integer?]
  simp only [hsize]
  rfl

end TemplateEngine.Decimal
