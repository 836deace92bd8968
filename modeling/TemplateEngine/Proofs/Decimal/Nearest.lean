import TemplateEngine.Proofs.Decimal.Integers

/-!
Rounding of exact numbers to doubles. Main statement: what is computed for a decimal is the double
nearest to it, of two that are equally near the even one, and infinity from half way behind the
greatest finite double on.
-/

namespace TemplateEngine.Decimal

/-- Half way from the greatest finite double to the power of two behind it. -/
def overflow : ℚ :=
  2 ^ 1024 - 2 ^ 970

/-- A number that is not below zero is rounded to a double: to infinity if it is too large, and
otherwise to a finite one that no other is nearer than, with an even mantissa if another one is
equally near. -/
inductive RoundsTo (r : ℚ) (x : Float) : Prop where
  | finite (hlt : r < overflow) (hfinite : x.isFinite = true)
    (hsign : (Binary.ofFloat x).negative = false)
    (hnearest : ∀ y : Float, y.isFinite = true → |r - size x| ≤ |r - size y|)
    (heven : ∀ y : Float, y.isFinite = true → |r - size x| = |r - size y| →
      size y = size x ∨ (Binary.ofFloat x).mantissa % 2 = 0)
  | infinity (hle : overflow ≤ r) (hinfinity : x = ofSignBits false infinityBits)

section

variable {r s t : ℚ}

theorem abs_sub_le_abs_sub_iff : |r - s| ≤ |r - t| ↔ 0 ≤ (t - s) * (s + t - 2 * r) := by
  rw [← sq_le_sq]
  constructor <;> intro h <;> linarith

theorem abs_sub_eq_abs_sub_iff : |r - s| = |r - t| ↔ t = s ∨ 2 * r = s + t := by
  rw [← sq_eq_sq_iff_abs_eq_abs, ← sub_eq_zero, ← sub_eq_zero (a := t), ← sub_eq_zero (b := s + t),
    ← mul_eq_zero]
  constructor <;> intro h <;> linarith

end

section

variable {mantissa mantissa' : Nat} {exponent exponent' : Int}

theorem two_zpow_eq (exponent : Int) : (2 : ℚ) ^ exponent = 2 * 2 ^ (exponent - 1) := by
  rw [← zpow_one_add₀ two_ne_zero, add_sub_cancel]

theorem order_cases :
    (exponent < exponent' ∨ exponent = exponent' ∧ mantissa < mantissa') ∨
      (mantissa = mantissa' ∧ exponent = exponent') ∨
      (exponent' < exponent ∨ exponent' = exponent ∧ mantissa' < mantissa) := by
  omega

/-- Between two doubles lies a last place of the lower one, and twice what reaches to the upper one
from below. -/
theorem le_of_below (hm : IsCanonical mantissa exponent) (hm' : IsCanonical mantissa' exponent')
    (hlt : exponent < exponent' ∨ exponent = exponent' ∧ mantissa < mantissa') :
    (mantissa * 2 ^ exponent + 2 ^ exponent : ℚ) ≤ mantissa' * 2 ^ exponent' ∧
      (mantissa * 2 ^ exponent + reachBelow mantissa' exponent' * 2 ^ (exponent' - 1) : ℚ) ≤
        mantissa' * 2 ^ exponent' := by
  have hreach := @reachBelow_cases mantissa' exponent'
  have hhalf := two_zpow_eq exponent'
  have hunit : (0 : ℚ) < 2 ^ (exponent' - 1) := by positivity
  rcases hlt with hlt | ⟨rfl, hlt⟩
  · have hmantissa : (mantissa + 1 : ℚ) ≤ 2 ^ 53 := by exact_mod_cast hm.mantissa_lt
    have hplace : (2 : ℚ) ^ exponent ≤ 2 ^ (exponent' - 1) :=
      zpow_le_zpow_right₀ one_le_two (by omega)
    have hnext : (2 ^ 53 : ℚ) ≤ 2 * mantissa' := by
      have := hm.le_exponent
      have := hm'.normal
      exact_mod_cast (by omega : 2 ^ 53 ≤ 2 * mantissa')
    have hlow : (2 ^ 53 + reachBelow mantissa' exponent' : ℚ) ≤ 2 * mantissa' + 1 := by
      have := hm.le_exponent
      have := hm'.normal
      exact_mod_cast (by omega : 2 ^ 53 + reachBelow mantissa' exponent' ≤ 2 * mantissa' + 1)
    constructor
    · calc (mantissa * 2 ^ exponent + 2 ^ exponent : ℚ) = (mantissa + 1) * 2 ^ exponent := by ring
        _ ≤ 2 * mantissa' * 2 ^ (exponent' - 1) :=
          mul_le_mul (hmantissa.trans hnext) hplace (by positivity) (by positivity)
        _ = mantissa' * 2 ^ exponent' := by rw [hhalf]; ring
    · calc (mantissa * 2 ^ exponent + reachBelow mantissa' exponent' * 2 ^ (exponent' - 1) : ℚ)
          ≤ mantissa * 2 ^ (exponent' - 1) +
            reachBelow mantissa' exponent' * 2 ^ (exponent' - 1) := by gcongr
        _ = (mantissa + reachBelow mantissa' exponent') * 2 ^ (exponent' - 1) := by ring
        _ ≤ 2 * mantissa' * 2 ^ (exponent' - 1) :=
          mul_le_mul_of_nonneg_right (by linarith) hunit.le
        _ = mantissa' * 2 ^ exponent' := by rw [hhalf]; ring
  · have hnext : (mantissa + 1 : ℚ) ≤ mantissa' := by exact_mod_cast hlt
    have hlow : (2 * mantissa + reachBelow mantissa' exponent : ℚ) ≤ 2 * mantissa' := by
      exact_mod_cast (by omega : 2 * mantissa + reachBelow mantissa' exponent ≤ 2 * mantissa')
    constructor
    · rw [← add_one_mul]
      exact mul_le_mul_of_nonneg_right hnext (by positivity)
    · calc (mantissa * 2 ^ exponent + reachBelow mantissa' exponent * 2 ^ (exponent - 1) : ℚ)
          = (2 * mantissa + reachBelow mantissa' exponent) * 2 ^ (exponent - 1) := by
            rw [hhalf]; ring
        _ ≤ 2 * mantissa' * 2 ^ (exponent - 1) := mul_le_mul_of_nonneg_right hlow hunit.le
        _ = mantissa' * 2 ^ exponent := by rw [hhalf]; ring

/-- The numbers around a double reach half way to its neighbours at most, and less than that if its
mantissa is odd. -/
theorem bounds_of_has {r : ℚ} (h : (Interval.around mantissa exponent).Has r) :
    2 * r ≤ mantissa * 2 ^ exponent + (mantissa * 2 ^ exponent + 2 ^ exponent) ∧
      mantissa * 2 ^ exponent +
        (mantissa * 2 ^ exponent - reachBelow mantissa exponent * 2 ^ (exponent - 1)) ≤ 2 * r ∧
      (mantissa % 2 ≠ 0 →
        2 * r < mantissa * 2 ^ exponent + (mantissa * 2 ^ exponent + 2 ^ exponent) ∧
        mantissa * 2 ^ exponent +
          (mantissa * 2 ^ exponent - reachBelow mantissa exponent * 2 ^ (exponent - 1)) <
            2 * r) := by
  obtain ⟨t, rfl⟩ := exists_quarters exponent r
  obtain ⟨-, hlow, hhigh, hinside⟩ := has_around_iff.1 h
  have hwhole : (2 : ℚ) ^ exponent = 4 * 2 ^ (exponent - 2) := by
    rw [zpow_sub₀ two_ne_zero]
    ring
  have hhalf : (2 : ℚ) ^ (exponent - 1) = 2 * 2 ^ (exponent - 2) := by
    rw [zpow_sub₀ two_ne_zero, zpow_sub₀ two_ne_zero]
    ring
  have hunit : (0 : ℚ) < 2 ^ (exponent - 2) := by positivity
  rw [hwhole, hhalf]
  generalize (2 : ℚ) ^ (exponent - 2) = unit at hunit
  refine ⟨?_, ?_, fun hodd => ⟨?_, ?_⟩⟩
  · nlinarith
  · nlinarith
  · nlinarith [(hinside hodd).2]
  · nlinarith [(hinside hodd).1]

end

/-- No double is nearer to a number than the one that has it around, and another one is equally near
only if its mantissa is even. -/
theorem nearest_of_has {x : Float} {r : ℚ} (h : (around x).Has r) (y : Float) :
    |r - size x| ≤ |r - size y| ∧
      (|r - size x| = |r - size y| → size y = size x ∨ (Binary.ofFloat x).mantissa % 2 = 0) := by
  obtain ⟨hhigh, hlow, hinside⟩ := bounds_of_has h
  have hx := isCanonical_ofFloat x
  have hy := isCanonical_ofFloat y
  rw [abs_sub_le_abs_sub_iff, abs_sub_eq_abs_sub_iff]
  unfold size
  generalize Binary.ofFloat x = b at *
  generalize Binary.ofFloat y = c at *
  have hunit : (0 : ℚ) < 2 ^ b.exponent := by positivity
  rcases @order_cases b.mantissa c.mantissa b.exponent c.exponent with hlt | ⟨hm, he⟩ | hlt
  · obtain ⟨hgap, -⟩ := le_of_below hx hy hlt
    refine ⟨mul_nonneg (by linarith) (by linarith), ?_⟩
    rintro (hsame | hmiddle)
    · exact .inl hsame
    · refine .inr (by_contra fun hodd => ?_)
      linarith [(hinside hodd).1]
  · rw [hm, he]
    exact ⟨by rw [sub_self, zero_mul], fun _ => .inl rfl⟩
  · obtain ⟨-, hgap⟩ := le_of_below hy hx hlt
    have hreach : (0 : ℚ) ≤ reachBelow b.mantissa b.exponent * 2 ^ (b.exponent - 1) := by
      positivity
    refine ⟨mul_nonneg_of_nonpos_of_nonpos (by linarith) (by linarith), ?_⟩
    rintro (hsame | hmiddle)
    · exact .inl hsame
    · refine .inr (by_contra fun hodd => ?_)
      linarith [(hinside hodd).2]

/-- The half way lies between the last two mantissas of the last binade. -/
theorem overflow_eq : overflow = (2 ^ 53 - 1 / 2) * 2 ^ (971 : ℤ) := by
  have hlast : (2 : ℚ) ^ (971 : ℤ) = 2 ^ 970 * 2 := by rw [zpow_ofNat, ← pow_succ]
  have hbehind : (2 : ℚ) ^ 1024 = 2 ^ 970 * 2 ^ 54 := by rw [← pow_add]
  rw [overflow, hlast, hbehind]
  generalize (2 : ℚ) ^ 970 = unit
  ring

theorem overflow_le : overflow ≤ 2 ^ (1024 : ℤ) := by
  rw [overflow_eq, show (1024 : ℤ) = 53 + 971 from rfl, zpow_add₀ two_ne_zero]
  exact mul_le_mul_of_nonneg_right (by norm_num) (by positivity)

/-- What is rounded to a finite double lies before the half way behind the greatest one. -/
theorem lt_overflow_of_has {x : Float} {r : ℚ} (hfinite : x.isFinite = true)
    (h : (around x).Has r) : r < overflow := by
  obtain ⟨hhigh, -, hinside⟩ := bounds_of_has h
  have hmantissa := (isCanonical_ofFloat x).mantissa_lt
  have hexponent := exponent_of_isFinite hfinite
  generalize Binary.ofFloat x = b at *
  have hunit : (0 : ℚ) < 2 ^ b.exponent := by positivity
  have hlt : r < (2 ^ 53 - 1 / 2) * 2 ^ b.exponent := by
    by_cases hodd : b.mantissa % 2 = 0
    · have hlast : (b.mantissa + 2 : ℚ) ≤ 2 ^ 53 := by
        exact_mod_cast (by omega : b.mantissa + 2 ≤ 2 ^ 53)
      have := mul_le_mul_of_nonneg_right hlast hunit.le
      linarith
    · have hlast : (b.mantissa + 1 : ℚ) ≤ 2 ^ 53 := by exact_mod_cast hmantissa
      have := mul_le_mul_of_nonneg_right hlast hunit.le
      linarith [(hinside hodd).1]
  calc r < (2 ^ 53 - 1 / 2) * 2 ^ b.exponent := hlt
    _ ≤ (2 ^ 53 - 1 / 2) * 2 ^ (971 : ℤ) :=
      mul_le_mul_of_nonneg_left (zpow_le_zpow_right₀ one_le_two (by omega)) (by norm_num)
    _ = overflow := overflow_eq.symm

/-- A ratio with the bits of infinity does not lie before the half way. -/
theorem overflow_le_of_nearestBits {num den : Nat} (hden : 0 < den)
    (h : nearestBits num den = infinityBits) : overflow ≤ num / den := by
  have hnum : 0 < num := by
    rw [Nat.pos_iff_ne_zero]
    rintro rfl
    exact absurd h (show 0 ≠ infinityBits by decide)
  obtain ⟨place, hleast, hbelow, habove, hbits⟩ := exists_place hnum hden
  have hpos := scaleDown_pos 2 num den place (by decide) hden
  have hmantissa := roundHalfEven_le hden hbelow
  obtain ⟨hdown, -⟩ := roundHalfEven_near (scaleDown 2 num den place).1 hpos
  rw [scaleDown_ratio 2 num den place (by decide), Nat.cast_ofNat] at hdown
  generalize roundHalfEven (scaleDown 2 num den place).1 (scaleDown 2 num den place).2 = mantissa
    at *
  rw [hbits, infinityBits, power_eq] at h
  rcases (by omega : place = 971 ∧ mantissa = 2 ^ 53 ∨ 972 ≤ place) with ⟨rfl, rfl⟩ | hplace
  · -- The mantissa of the last binade was rounded up to the power of two behind it.
    rw [overflow_eq, ← le_div_iff₀ (by positivity)]
    rwa [Nat.cast_pow, Nat.cast_ofNat] at hdown
  · calc overflow ≤ 2 ^ (1024 : ℤ) := overflow_le
      _ ≤ 2 ^ (place + 52) := zpow_le_zpow_right₀ one_le_two (by omega)
      _ ≤ num / den := habove.resolve_right (by omega)

section

variable {r : ℚ}

/-- A number is rounded to the double that has it around. -/
theorem roundsTo_of_has {x : Float} (hfinite : x.isFinite = true)
    (hsign : (Binary.ofFloat x).negative = false) (h : (around x).Has r) : RoundsTo r x :=
  .finite (lt_overflow_of_has hfinite h) hfinite hsign (fun y _ => (nearest_of_has h y).1)
    fun y _ => (nearest_of_has h y).2

section

variable {bits : Nat} (hbits : bits < infinityBits)
include hbits

theorem around_ofSignBits :
    around (ofSignBits false bits) = Interval.around (mantissaOf bits) (exponentOf bits) := by
  unfold around
  rw [ofFloat_ofSignBits false hbits.le]

theorem roundsTo_ofSignBits (h : (Interval.around (mantissaOf bits) (exponentOf bits)).Has r) :
    RoundsTo r (ofSignBits false bits) := by
  rw [← around_ofSignBits hbits] at h
  exact roundsTo_of_has (isFinite_ofSignBits false hbits)
    (by rw [ofFloat_ofSignBits false hbits.le]) h

end

/-- What is computed for a ratio is what it is rounded to. -/
theorem roundsTo_nearestBits (num : Nat) {den : Nat} (hden : 0 < den) :
    RoundsTo (num / den) (ofSignBits false (nearestBits num den)) := by
  rcases (nearestBits_le num den).lt_or_eq with hlt | heq
  · exact roundsTo_ofSignBits hlt (has_nearestBits num hden hlt)
  · exact .infinity (overflow_le_of_nearestBits hden heq) (by rw [heq])

/-- A number that is not too large lies around a finite double. -/
theorem exists_has (hnonneg : 0 ≤ r) (hlt : r < overflow) :
    ∃ x : Float, x.isFinite = true ∧ (around x).Has r := by
  obtain ⟨num, den, hden, rfl⟩ : ∃ num den : Nat, 0 < den ∧ r = num / den := by
    obtain ⟨num, hnum⟩ := Int.eq_ofNat_of_zero_le (Rat.num_nonneg.2 hnonneg)
    refine ⟨num, r.den, r.den_pos, ?_⟩
    rw [← Int.cast_natCast, ← hnum, Rat.num_div_den]
  have hbits : nearestBits num den < infinityBits :=
    (nearestBits_le num den).lt_of_ne fun heq =>
      absurd (overflow_le_of_nearestBits hden heq) (not_le.2 hlt)
  refine ⟨_, isFinite_ofSignBits false hbits, ?_⟩
  rw [around_ofSignBits hbits]
  exact has_nearestBits num hden hbits

/-- Numbers up to half of the least double are rounded to zero. -/
theorem roundsTo_zero (hnonneg : 0 ≤ r) (hsmall : r ≤ 2 ^ (-1075 : ℤ)) :
    RoundsTo r (ofSignBits false 0) := by
  refine roundsTo_ofSignBits (by decide) ?_
  show (Interval.around 0 (-1074)).Has r
  obtain ⟨t, rfl⟩ := exists_quarters (-1074) r
  have hunit : (0 : ℚ) < 2 ^ ((-1074 : ℤ) - 2) := by positivity
  have hquarters : (2 : ℚ) ^ (-1075 : ℤ) = 2 * 2 ^ ((-1074 : ℤ) - 2) := by
    rw [← zpow_one_add₀ two_ne_zero]
    rfl
  rw [hquarters, mul_le_mul_iff_left₀ hunit] at hsmall
  have ht : 0 ≤ t := nonneg_of_mul_nonneg_left hnonneg hunit
  rw [has_around_iff]
  simpa using ⟨ht, by positivity, hsmall⟩

theorem two_pow_le_ten_pow (k : Nat) : (2 : ℚ) ^ (3 * k) ≤ 10 ^ k := by
  rw [pow_mul]
  exact pow_le_pow_left₀ (by norm_num) (by norm_num) k

/-- A decimal of which the exponent alone makes it too large. -/
theorem overflow_le_decimal {digits : Nat} {exponent : Int} (hdigits : digits ≠ 0)
    (hexponent : 400 < exponent) : overflow ≤ digits * 10 ^ exponent := by
  obtain ⟨k, rfl⟩ := Int.eq_ofNat_of_zero_le (by omega : 0 ≤ exponent)
  have hone : (1 : ℚ) ≤ digits := by exact_mod_cast Nat.one_le_iff_ne_zero.2 hdigits
  calc overflow ≤ 2 ^ (1024 : ℤ) := overflow_le
    _ = 2 ^ 1024 := zpow_ofNat _ _
    _ ≤ 2 ^ (3 * k) := pow_le_pow_right₀ one_le_two (by omega)
    _ ≤ 1 * 10 ^ k := by rw [one_mul]; exact two_pow_le_ten_pow k
    _ ≤ digits * 10 ^ k := mul_le_mul_of_nonneg_right hone (by positivity)
    _ = digits * 10 ^ (k : ℤ) := by rw [zpow_natCast]

/-- A decimal of which the exponent makes it too small, however long its digits are. -/
theorem decimal_le_least {digits : Nat} {exponent : Int}
    (hexponent : exponent < -(400 + Int.ofNat digits.log2)) :
    (digits * 10 ^ exponent : ℚ) ≤ 2 ^ (-1075 : ℤ) := by
  rw [Int.ofNat_eq_natCast] at hexponent
  obtain ⟨k, rfl⟩ : ∃ k : Nat, exponent = -k := ⟨(-exponent).toNat, by omega⟩
  have hlength : (digits : ℚ) ≤ 2 ^ (digits.log2 + 1) := by
    exact_mod_cast (Nat.lt_log2_self (n := digits)).le
  calc (digits * 10 ^ (-k : ℤ) : ℚ) = digits / 10 ^ k := by rw [zpow_neg, zpow_natCast]; rfl
    _ ≤ 2 ^ (digits.log2 + 1) / 2 ^ (3 * k) :=
      div_le_div₀ (by positivity) hlength (by positivity) (two_pow_le_ten_pow k)
    _ = 2 ^ ((digits.log2 + 1 : Nat) - (3 * k : Nat) : ℤ) := by
      rw [zpow_sub₀ two_ne_zero, zpow_natCast, zpow_natCast]
    _ ≤ 2 ^ (-1075 : ℤ) := zpow_le_zpow_right₀ one_le_two (by omega)

end

/-- What is computed for a decimal is what it is rounded to. -/
theorem roundsTo_ofDecimal (digits : Nat) (exponent : Int) :
    RoundsTo (digits * 10 ^ exponent) (ofDecimal false digits exponent) := by
  unfold ofDecimal
  split_ifs with hdigits hlarge hsmall
  · rw [hdigits, Nat.cast_zero, zero_mul]
    exact roundsTo_zero le_rfl (by positivity)
  · exact .infinity (overflow_le_decimal hdigits hlarge) rfl
  · exact roundsTo_zero (by positivity) (decimal_le_least hsmall)
  · have hpos := scaleDown_pos 10 digits 1 (-exponent) (by decide) (by decide)
    have hratio := scaleDown_ratio 10 digits 1 (-exponent) (by decide)
    rw [Nat.cast_one, div_one, zpow_neg, div_inv_eq_mul, Nat.cast_ofNat] at hratio
    rw [← hratio]
    exact roundsTo_nearestBits _ hpos

section

variable {mantissa mantissa' : Nat} {exponent exponent' : Int}

theorem eq_of_size (hm : IsCanonical mantissa exponent) (hm' : IsCanonical mantissa' exponent')
    (h : (mantissa * 2 ^ exponent : ℚ) = mantissa' * 2 ^ exponent') :
    mantissa = mantissa' ∧ exponent = exponent' := by
  have hunit : (0 : ℚ) < 2 ^ exponent := by positivity
  have hunit' : (0 : ℚ) < 2 ^ exponent' := by positivity
  have hbelow : ¬ (exponent < exponent' ∨ exponent = exponent' ∧ mantissa < mantissa') :=
    fun hlt => by linarith [(le_of_below hm hm' hlt).1]
  have habove : ¬ (exponent' < exponent ∨ exponent' = exponent ∧ mantissa' < mantissa) :=
    fun hlt => by linarith [(le_of_below hm' hm hlt).1]
  omega

/-- The neighbours of a double with an even mantissa have an odd one. -/
theorem odd_of_neighbour (hm : IsCanonical mantissa exponent)
    (hm' : IsCanonical mantissa' exponent') (heven : mantissa % 2 = 0)
    (h : (mantissa' * 2 ^ exponent' : ℚ) = mantissa * 2 ^ exponent + 2 ^ exponent ∨
      (mantissa' * 2 ^ exponent' + reachBelow mantissa exponent * 2 ^ (exponent - 1) : ℚ) =
        mantissa * 2 ^ exponent) : mantissa' % 2 ≠ 0 := by
  have hlt := hm.mantissa_lt
  have hleast := hm.le_exponent
  have hnormal := hm.normal
  have hhalf := two_zpow_eq exponent
  rcases h with h | h
  · have hnext : IsCanonical (mantissa + 1) exponent := ⟨by omega, hleast, by omega⟩
    obtain ⟨rfl, -⟩ := eq_of_size hm' hnext (by rw [h]; push_cast; ring)
    omega
  · rcases @reachBelow_cases mantissa exponent with ⟨hreach, rfl, hplace⟩ | ⟨hreach, hother⟩
    · have hprevious : IsCanonical (2 ^ 53 - 1) (exponent - 1) := ⟨by omega, by omega, by omega⟩
      obtain ⟨rfl, -⟩ := eq_of_size hm' hprevious (by
        rw [hreach, hhalf] at h
        push_cast at h ⊢
        linarith)
      decide
    · have hpos : mantissa ≠ 0 := by
        rintro rfl
        have : (0 : ℚ) < mantissa' * 2 ^ exponent' +
            reachBelow 0 exponent * 2 ^ (exponent - 1) := by
          rw [hreach]
          positivity
        rw [h, Nat.cast_zero, zero_mul] at this
        exact lt_irrefl _ this
      obtain ⟨k, rfl⟩ := Nat.exists_eq_add_one_of_ne_zero hpos
      have hprevious : IsCanonical k exponent := ⟨by omega, hleast, by omega⟩
      obtain ⟨rfl, -⟩ := eq_of_size hm' hprevious (by
        rw [hreach, hhalf] at h
        rw [hhalf]
        push_cast at h
        linarith)
      omega

end

/-- A number is rounded to a double that has it around. -/
theorem RoundsTo.has {r : ℚ} {x : Float} (hr : 0 ≤ r) (h : RoundsTo r x) (hlt : r < overflow) :
    (around x).Has r := by
  cases h with
  | infinity hle _ => exact absurd hle (not_le.2 hlt)
  | finite _ hfinite hsign hnearest heven =>
    obtain ⟨y, hy, hhas⟩ := exists_has hr hlt
    obtain ⟨hle, heven'⟩ := nearest_of_has hhas x
    have heq := hle.antisymm (hnearest y hy)
    have hcx := isCanonical_ofFloat x
    have hcy := isCanonical_ofFloat y
    by_cases hsize : size x = size y
    · obtain ⟨hm, he⟩ := eq_of_size hcx hcy hsize
      unfold around
      rw [hm, he]
      exact hhas
    · have hx := (heven y hy heq.symm).resolve_left (Ne.symm hsize)
      have hy := (heven' heq).resolve_left hsize
      have hmiddle := (abs_sub_eq_abs_sub_iff.1 heq).resolve_left hsize
      obtain ⟨hhigh, hlow, -⟩ := bounds_of_has hhas
      unfold size at hsize hmiddle
      generalize Binary.ofFloat x = b at *
      generalize Binary.ofFloat y = c at *
      rcases @order_cases b.mantissa c.mantissa b.exponent c.exponent with hlt | ⟨hm, he⟩ | hlt
      · obtain ⟨-, hgap⟩ := le_of_below hcx hcy hlt
        exact absurd hx (odd_of_neighbour hcy hcx hy (.inr (by linarith)))
      · exact absurd (by rw [hm, he]) hsize
      · obtain ⟨hgap, -⟩ := le_of_below hcy hcx hlt
        exact absurd hx (odd_of_neighbour hcy hcx hy (.inl (by linarith)))

/-- A number is rounded to one double only. -/
theorem RoundsTo.unique {r : ℚ} {x y : Float} (hr : 0 ≤ r) (hx : RoundsTo r x)
    (hy : RoundsTo r y) : x = y := by
  rcases lt_or_ge r overflow with hlt | hle
  · obtain ⟨hmantissa, hexponent⟩ := eq_of_has (isCanonical_ofFloat x) (isCanonical_ofFloat y)
      (hx.has hr hlt) (hy.has hr hlt)
    apply ofFloat_injective
    cases hx with
    | infinity h _ => exact absurd h (not_le.2 hlt)
    | finite _ _ hsign _ _ =>
      cases hy with
      | infinity h _ => exact absurd h (not_le.2 hlt)
      | finite _ _ hsign' _ _ =>
        rw [Binary.mk.injEq]
        exact ⟨hsign.trans hsign'.symm, hmantissa, hexponent⟩
  · cases hx with
    | finite h => exact absurd hle (not_le.2 h)
    | infinity _ hx =>
      cases hy with
      | finite h => exact absurd hle (not_le.2 h)
      | infinity _ hy => rw [hx, hy]

end TemplateEngine.Decimal
