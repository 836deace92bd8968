import TemplateEngine.Decimal.Shortest
import TemplateEngine.Proofs.Decimal.Bits

/-!
The numbers that a double stands for when it is rounded to. Main statements: no number is rounded to
two doubles, and the double that is computed for a ratio is the one that the ratio is rounded to.
-/

namespace TemplateEngine.Decimal

section

variable (base num den : Nat) (places : Int)

theorem scaleDown_pos (hbase : 0 < base) (hden : 0 < den) :
    0 < (scaleDown base num den places).2 := by
  unfold scaleDown
  split
  · exact Nat.mul_pos hden (power_pos hbase _)
  · exact hden

theorem scaleDown_num_pos (hbase : 0 < base) (hnum : 0 < num) :
    0 < (scaleDown base num den places).1 := by
  unfold scaleDown
  split
  · exact hnum
  · exact Nat.mul_pos hnum (power_pos hbase _)

/-- A scaled ratio is the ratio divided by the power. -/
theorem scaleDown_ratio (hbase : 0 < base) :
    ((scaleDown base num den places).1 : ℚ) / (scaleDown base num den places).2 =
      num / den / (base : ℚ) ^ places := by
  have hne : (base : ℚ) ≠ 0 := by exact_mod_cast hbase.ne'
  unfold scaleDown
  split
  · next h =>
    obtain ⟨k, rfl⟩ := Int.eq_ofNat_of_zero_le h
    rw [power_eq, Int.toNat_natCast, zpow_natCast]
    push_cast
    rw [div_div]
  · next h =>
    obtain ⟨k, rfl⟩ : ∃ k : Nat, places = -k := ⟨(-places).toNat, by omega⟩
    rw [power_eq, neg_neg, Int.toNat_natCast, zpow_neg, zpow_natCast]
    push_cast
    rw [div_inv_eq_mul]
    ring

end

structure IsCanonical (mantissa : Nat) (exponent : Int) : Prop where
  mantissa_lt : mantissa < 2 ^ 53
  le_exponent : -1074 ≤ exponent
  normal : 2 ^ 52 ≤ mantissa ∨ exponent = -1074

structure Interval.Has (i : Interval) (r : ℚ) : Prop where
  low_le : (i.low : ℚ) / i.den ≤ r
  le_high : r ≤ i.high / i.den
  inside : i.closed = false → (i.low : ℚ) / i.den < r ∧ r < i.high / i.den

/-- How many quarters of its last place the numbers around a double reach below it. -/
def reachBelow (mantissa : Nat) (exponent : Int) : Nat :=
  if mantissa = power 2 52 && -1074 < exponent then 1 else 2

variable {mantissa mantissa' : Nat} {exponent exponent' : Int} {r t t' : ℚ}

theorem reachBelow_cases :
    reachBelow mantissa exponent = 1 ∧ mantissa = 2 ^ 52 ∧ -1074 < exponent ∨
      reachBelow mantissa exponent = 2 ∧ ¬ (mantissa = 2 ^ 52 ∧ -1074 < exponent) := by
  have hiff : (mantissa = power 2 52 && -1074 < exponent) = true ↔
      mantissa = 2 ^ 52 ∧ -1074 < exponent := by
    rw [Bool.and_eq_true, decide_eq_true_iff, decide_eq_true_iff, power_eq]
  unfold reachBelow
  split
  · next h => exact .inl ⟨rfl, hiff.1 h⟩
  · next h => exact .inr ⟨rfl, fun hm => h (hiff.2 hm)⟩

theorem cast_sub_le_iff {a b : Nat} : ((a - b : Nat) : ℚ) ≤ t ↔ 0 ≤ t ∧ (a : ℚ) ≤ t + b := by
  rcases le_total a b with h | h
  · have h' : (a : ℚ) ≤ b := by exact_mod_cast h
    rw [Nat.sub_eq_zero_of_le h, Nat.cast_zero]
    exact ⟨fun ht => ⟨ht, by linarith⟩, And.left⟩
  · have h' : (b : ℚ) ≤ a := by exact_mod_cast h
    rw [Nat.cast_sub h]
    exact ⟨fun ht => ⟨by linarith, by linarith⟩, fun ht => by linarith [ht.2]⟩

/-- The numbers around a double, counted in quarters of its last place. -/
theorem has_around_iff :
    (Interval.around mantissa exponent).Has (t * 2 ^ (exponent - 2)) ↔
      0 ≤ t ∧ (4 * mantissa : ℚ) ≤ t + reachBelow mantissa exponent ∧ t ≤ 4 * mantissa + 2 ∧
        (mantissa % 2 ≠ 0 →
          (4 * mantissa : ℚ) < t + reachBelow mantissa exponent ∧ t < 4 * mantissa + 2) := by
  have hunit : (0 : ℚ) < 2 ^ (exponent - 2) := by positivity
  have hratio := scaleDown_ratio 2 1 1 (2 - exponent) (by decide)
  have hscale (n : Nat) : ((n * (scaleDown 2 1 1 (2 - exponent)).1 : Nat) : ℚ) /
      (scaleDown 2 1 1 (2 - exponent)).2 = n * 2 ^ (exponent - 2) := by
    rw [Nat.cast_mul, mul_div_assoc, hratio, show exponent - 2 = -(2 - exponent) by ring, zpow_neg]
    push_cast
    ring
  have hlow : ((Interval.around mantissa exponent).low : ℚ) /
      (Interval.around mantissa exponent).den =
        ((4 * mantissa - reachBelow mantissa exponent : Nat) : ℚ) * 2 ^ (exponent - 2) := by
    rw [← hscale]
    rfl
  have hhigh : ((Interval.around mantissa exponent).high : ℚ) /
      (Interval.around mantissa exponent).den = (4 * mantissa + 2) * 2 ^ (exponent - 2) := by
    rw [show (4 * mantissa + 2 : ℚ) = ((4 * mantissa + 2 : Nat) : ℚ) by push_cast; rfl, ← hscale]
    rfl
  have hclosed : (Interval.around mantissa exponent).closed = false ↔ mantissa % 2 ≠ 0 := by
    simp [Interval.around]
  have hstrict (hodd : mantissa % 2 ≠ 0) :
      ((4 * mantissa - reachBelow mantissa exponent : Nat) : ℚ) < t ↔
        (4 * mantissa : ℚ) < t + reachBelow mantissa exponent := by
    have := @reachBelow_cases mantissa exponent
    rw [Nat.cast_sub (by omega), sub_lt_iff_lt_add]
    push_cast
    rfl
  have hends : ((4 * mantissa - reachBelow mantissa exponent : Nat) : ℚ) ≤ t ↔
      0 ≤ t ∧ (4 * mantissa : ℚ) ≤ t + reachBelow mantissa exponent := by
    rw [cast_sub_le_iff]
    push_cast
    rfl
  rw [← and_assoc, ← hends]
  constructor
  · rintro ⟨hle, hge, hinside⟩
    rw [hlow, hhigh, hclosed] at hinside
    refine ⟨?_, ?_, fun hodd => ⟨(hstrict hodd).1 ?_, ?_⟩⟩
    · exact le_of_mul_le_mul_right (hlow ▸ hle) hunit
    · exact le_of_mul_le_mul_right (hhigh ▸ hge) hunit
    · exact lt_of_mul_lt_mul_right (hinside hodd).1 hunit.le
    · exact lt_of_mul_lt_mul_right (hinside hodd).2 hunit.le
  · rintro ⟨hle, hge, hinside⟩
    refine ⟨?_, ?_, fun hodd => ?_⟩
    · rw [hlow]
      exact mul_le_mul_of_nonneg_right hle hunit.le
    · rw [hhigh]
      exact mul_le_mul_of_nonneg_right hge hunit.le
    · rw [hlow, hhigh]
      have hodd := hclosed.1 hodd
      obtain ⟨hlt, hgt⟩ := hinside hodd
      exact ⟨mul_lt_mul_of_pos_right ((hstrict hodd).2 hlt) hunit,
        mul_lt_mul_of_pos_right hgt hunit⟩

/-- A number around a double in quarters of its last place. -/
theorem exists_quarters (exponent : Int) (r : ℚ) : ∃ t, r = t * 2 ^ (exponent - 2) :=
  ⟨r / 2 ^ (exponent - 2), (div_mul_cancel₀ r (by positivity)).symm⟩

/-- The numbers around a double lie below those around any greater one. -/
theorem not_has_of_lt (hm : IsCanonical mantissa exponent) (hm' : IsCanonical mantissa' exponent')
    (hlt : exponent < exponent' ∨ exponent = exponent' ∧ mantissa < mantissa')
    (h : (Interval.around mantissa exponent).Has r) :
    ¬ (Interval.around mantissa' exponent').Has r := by
  intro h'
  obtain ⟨t, rfl⟩ := exists_quarters exponent r
  obtain ⟨-, -, hge, hinside⟩ := has_around_iff.1 h
  have hmantissa := hm.mantissa_lt
  have hreach := @reachBelow_cases mantissa' exponent'
  rcases hlt with hlt | ⟨rfl, hlt⟩
  · obtain ⟨t', ht'⟩ := exists_quarters exponent' (t * 2 ^ (exponent - 2))
    rw [ht'] at h'
    obtain ⟨-, hle, -, -⟩ := has_around_iff.1 h'
    have hlow : 2 ^ 54 + reachBelow mantissa' exponent' ≤ 4 * mantissa' + 1 := by
      have := hm.le_exponent
      have := hm'.normal
      omega
    have hlow : (2 ^ 54 + reachBelow mantissa' exponent' : ℚ) ≤ 4 * mantissa' + 1 := by
      exact_mod_cast hlow
    have ht : t = t' * 2 ^ (exponent' - exponent) := by
      rw [show exponent' - exponent = (exponent' - 2) - (exponent - 2) by ring,
        zpow_sub₀ two_ne_zero, ← mul_div_assoc, ← ht', mul_div_cancel_right₀ _ (by positivity)]
    have hpower : (2 : ℚ) ≤ 2 ^ (exponent' - exponent) := by
      calc (2 : ℚ) = 2 ^ (1 : ℤ) := by norm_num
        _ ≤ 2 ^ (exponent' - exponent) := zpow_le_zpow_right₀ (by norm_num) (by omega)
    have htop : t' * 2 ≤ t := ht ▸ mul_le_mul_of_nonneg_left hpower (by linarith)
    have hlast : 2 ^ 53 ≤ mantissa + 1 := by
      have : (2 ^ 53 : ℚ) ≤ mantissa + 1 := by linarith
      exact_mod_cast this
    have hstrict := (hinside (by omega)).2
    have hmantissa : (mantissa + 1 : ℚ) ≤ 2 ^ 53 := by exact_mod_cast hmantissa
    linarith
  · obtain ⟨-, hle, -, hinside'⟩ := has_around_iff.1 h'
    have hends : 4 * mantissa + 2 + reachBelow mantissa' exponent ≤ 4 * mantissa' := by omega
    have hends : (4 * mantissa + 2 + reachBelow mantissa' exponent : ℚ) ≤ 4 * mantissa' := by
      exact_mod_cast hends
    by_cases hodd : mantissa % 2 = 0
    · by_cases hodd' : mantissa' % 2 = 0
      · have hapart : 4 * mantissa + 6 + reachBelow mantissa' exponent ≤ 4 * mantissa' := by omega
        have hapart : (4 * mantissa + 6 + reachBelow mantissa' exponent : ℚ) ≤ 4 * mantissa' := by
          exact_mod_cast hapart
        linarith
      · linarith [(hinside' hodd').1]
    · linarith [(hinside hodd).2]

/-- No number is rounded to two doubles. -/
theorem eq_of_has (hm : IsCanonical mantissa exponent) (hm' : IsCanonical mantissa' exponent')
    (h : (Interval.around mantissa exponent).Has r)
    (h' : (Interval.around mantissa' exponent').Has r) :
    mantissa = mantissa' ∧ exponent = exponent' := by
  have hbelow : ¬ (exponent < exponent' ∨ exponent = exponent' ∧ mantissa < mantissa') :=
    fun hlt => not_has_of_lt hm hm' hlt h h'
  have habove : ¬ (exponent' < exponent ∨ exponent' = exponent ∧ mantissa' < mantissa) :=
    fun hlt => not_has_of_lt hm' hm hlt h' h
  omega

/-- A ratio is its whole part and a fraction. -/
theorem ratio_eq_add (num : Nat) {den : Nat} (hden : 0 < den) :
    (num / den : ℚ) = (num / den : Nat) + (num % den : Nat) / (den : ℚ) := by
  have hden' : (0 : ℚ) < den := by exact_mod_cast hden
  field_simp
  exact_mod_cast (Nat.div_add_mod num den).symm

/-- The integer nearest to a ratio is at most a half away, and less than that if it is odd. -/
theorem roundHalfEven_near (num : Nat) {den : Nat} (hden : 0 < den) :
    (roundHalfEven num den : ℚ) - 1 / 2 ≤ num / den ∧
      (num / den : ℚ) ≤ roundHalfEven num den + 1 / 2 ∧
      (roundHalfEven num den % 2 ≠ 0 → (roundHalfEven num den : ℚ) - 1 / 2 < num / den ∧
        (num / den : ℚ) < roundHalfEven num den + 1 / 2) := by
  have hden' : (0 : ℚ) < den := by exact_mod_cast hden
  obtain ⟨f, hf⟩ : ∃ f : ℚ, f = (num % den : Nat) / den := ⟨_, rfl⟩
  have hnonneg : 0 ≤ f := hf ▸ by positivity
  have hlt : f < 1 := by
    rw [hf, div_lt_one hden']
    exact_mod_cast Nat.mod_lt _ hden
  have hbelow : 2 * (num % den) < den ↔ 2 * f < 1 := by
    rw [hf, ← mul_div_assoc, div_lt_one hden']
    exact_mod_cast Iff.rfl
  have habove : den < 2 * (num % den) ↔ 1 < 2 * f := by
    rw [hf, ← mul_div_assoc, one_lt_div hden']
    exact_mod_cast Iff.rfl
  rw [ratio_eq_add num hden, ← hf]
  unfold roundHalfEven
  simp only [Bool.or_eq_true, Bool.and_eq_true, decide_eq_true_eq, beq_iff_eq]
  split
  · next hdown =>
    have hhalf : 2 * f ≤ 1 := by
      rw [← not_lt, ← habove]
      omega
    refine ⟨by linarith, by linarith, fun hodd => ⟨by linarith, ?_⟩⟩
    have := hbelow.1 (by omega)
    linarith
  · next hup =>
    have hhalf : 1 ≤ 2 * f := by
      rw [← not_lt, ← hbelow]
      omega
    push_cast
    refine ⟨by linarith, by linarith, fun hodd => ⟨?_, by linarith⟩⟩
    have := habove.1 (by omega)
    linarith

/-- What bits stand for that are made of an exponent and a rounded mantissa. A mantissa that is
rounded up to the next power of two is carried. -/
theorem mantissaOf_exponentOf {place mantissa : Nat} (hmantissa : mantissa ≤ 2 ^ 53)
    (hnormal : 2 ^ 52 ≤ mantissa ∨ place = 0) :
    mantissaOf (place * 2 ^ 52 + mantissa) = mantissa ∧
        exponentOf (place * 2 ^ 52 + mantissa) = place - 1074 ∨
      mantissa = 2 ^ 53 ∧ mantissaOf (place * 2 ^ 52 + mantissa) = 2 ^ 52 ∧
        exponentOf (place * 2 ^ 52 + mantissa) = place - 1073 := by
  unfold mantissaOf exponentOf
  by_cases hsubnormal : mantissa < 2 ^ 52
  · left
    rw [if_pos (by omega)]
    omega
  · rw [if_neg (by omega)]
    omega

/-- A ratio lies between two powers of two that the lengths of its parts tell. -/
theorem ratio_bounds {num den : Nat} (hnum : 0 < num) (hden : 0 < den) :
    (2 : ℚ) ^ ((num.log2 : ℤ) - den.log2 - 1) ≤ num / den ∧
      (num / den : ℚ) < 2 ^ ((num.log2 : ℤ) - den.log2 + 1) := by
  have hden' : (0 : ℚ) < den := by exact_mod_cast hden
  have hlow : (2 : ℚ) ^ num.log2 ≤ num := by exact_mod_cast Nat.log2_self_le hnum.ne'
  have hhigh : (num : ℚ) < 2 ^ (num.log2 + 1) := by exact_mod_cast Nat.lt_log2_self
  have hlow' : (2 : ℚ) ^ den.log2 ≤ den := by exact_mod_cast Nat.log2_self_le hden.ne'
  have hhigh' : (den : ℚ) < 2 ^ (den.log2 + 1) := by exact_mod_cast Nat.lt_log2_self
  constructor
  · rw [le_div_iff₀ hden', show (num.log2 : ℤ) - den.log2 - 1 = num.log2 - (den.log2 + 1 : Nat) by
      push_cast; ring, zpow_sub₀ two_ne_zero, zpow_natCast, zpow_natCast, div_mul_eq_mul_div,
      div_le_iff₀ (by positivity)]
    exact mul_le_mul hlow hhigh'.le hden'.le (by positivity)
  · rw [div_lt_iff₀ hden', show (num.log2 : ℤ) - den.log2 + 1 = (num.log2 + 1 : Nat) - den.log2 by
      push_cast; ring, zpow_sub₀ two_ne_zero, zpow_natCast, zpow_natCast, div_mul_eq_mul_div,
      lt_div_iff₀ (by positivity)]
    exact mul_lt_mul hhigh hlow' (by positivity) (by positivity)

/-- The last place that is chosen for a ratio leaves a mantissa of 53 binary digits, or is the least
one. -/
theorem exists_place {num den : Nat} (hnum : 0 < num) (hden : 0 < den) :
    ∃ place : Int, -1074 ≤ place ∧ (num / den : ℚ) < 2 ^ (place + 53) ∧
      ((2 : ℚ) ^ (place + 52) ≤ num / den ∨ place = -1074) ∧
      nearestBits num den = min ((place + 1074).toNat * 2 ^ 52 +
        roundHalfEven (scaleDown 2 num den place).1 (scaleDown 2 num den place).2)
          infinityBits := by
  obtain ⟨hlow, hhigh⟩ := ratio_bounds hnum hden
  unfold nearestBits
  rw [if_neg hnum.ne']
  extract_lets guess scaled place scaled'
  have hscaled : scaled.1 / scaled.2 < power 2 52 ↔ (num / den : ℚ) < 2 ^ (guess + 52) := by
    have hpos : 0 < scaled.2 := scaleDown_pos 2 num den guess (by decide) hden
    have hratio : (scaled.1 / scaled.2 : ℚ) = num / den / (2 : ℕ) ^ guess :=
      scaleDown_ratio 2 num den guess (by decide)
    rw [Nat.cast_ofNat] at hratio
    rw [power_eq, Nat.div_lt_iff_lt_mul hpos, add_comm, zpow_add₀ two_ne_zero,
      ← div_lt_iff₀ (by positivity), ← hratio, div_lt_iff₀ (by exact_mod_cast hpos)]
    exact_mod_cast Iff.rfl
  have hguess : guess = max ((num.log2 : ℤ) - den.log2 - 52) (-1074) := rfl
  by_cases hsmall : scaled.1 / scaled.2 < power 2 52 ∧ -1074 < guess
  · have hplace : place = guess - 1 := if_pos (by simpa using hsmall)
    refine ⟨place, by omega, ?_, .inl ?_, rfl⟩
    · rw [show place + 53 = guess + 52 by omega]
      exact hscaled.1 hsmall.1
    · rw [show place + 52 = (num.log2 : ℤ) - den.log2 - 1 by omega]
      exact hlow
  · have hplace : place = guess := if_neg (by simpa using hsmall)
    refine ⟨place, by omega, ?_, ?_, rfl⟩
    · exact hhigh.trans_le (zpow_le_zpow_right₀ one_le_two (by omega))
    · rw [hplace, ← not_lt, ← hscaled]
      omega

/-- A mantissa has at most 53 binary digits, or is the power of two that follows. -/
theorem roundHalfEven_le {num den : Nat} {place : Int} (hden : 0 < den)
    (h : (num / den : ℚ) < 2 ^ (place + 53)) :
    roundHalfEven (scaleDown 2 num den place).1 (scaleDown 2 num den place).2 ≤ 2 ^ 53 := by
  obtain ⟨hdown, -⟩ :=
    roundHalfEven_near (scaleDown 2 num den place).1
      (scaleDown_pos 2 num den place (by decide) hden)
  rw [scaleDown_ratio 2 num den place (by decide), Nat.cast_ofNat] at hdown
  rw [add_comm, zpow_add₀ two_ne_zero, ← div_lt_iff₀ (by positivity)] at h
  generalize roundHalfEven (scaleDown 2 num den place).1 (scaleDown 2 num den place).2 = mantissa
    at *
  have hlt : (mantissa : ℚ) < (2 ^ 53 + 1 : Nat) := by
    push_cast
    linarith
  have hlt : mantissa < 2 ^ 53 + 1 := by exact_mod_cast hlt
  omega

/-- A ratio is rounded to the double that is computed for it. -/
theorem has_nearestBits (num : Nat) {den : Nat} (hden : 0 < den)
    (hfinite : nearestBits num den < infinityBits) :
    (Interval.around (mantissaOf (nearestBits num den)) (exponentOf (nearestBits num den))).Has
      (num / den) := by
  obtain rfl | hnum := Nat.eq_zero_or_pos num
  · have hzero : (Interval.around 0 (-1074)).Has (0 * 2 ^ ((-1074 : ℤ) - 2)) :=
      has_around_iff.2 (by simp)
    rw [zero_mul] at hzero
    rw [Nat.cast_zero, zero_div, show nearestBits 0 den = 0 from if_pos rfl]
    exact hzero
  obtain ⟨place, hleast, hbelow, habove, hbits⟩ := exists_place hnum hden
  have hratio := scaleDown_ratio 2 num den place (by decide)
  have hpos := scaleDown_pos 2 num den place (by decide) hden
  obtain ⟨hdown, hup, hinside⟩ := roundHalfEven_near (scaleDown 2 num den place).1 hpos
  have hmantissa := roundHalfEven_le hden hbelow
  generalize roundHalfEven (scaleDown 2 num den place).1 (scaleDown 2 num den place).2 = mantissa
    at *
  rw [hratio, Nat.cast_ofNat] at hdown hup hinside
  obtain ⟨s, hs⟩ : ∃ s : ℚ, s = num / den / 2 ^ place := ⟨_, rfl⟩
  rw [← hs] at hdown hup hinside
  have hnonneg : 0 ≤ s := hs ▸ by positivity
  have hsize : (num / den : ℚ) = s * 2 ^ place := by
    rw [hs, div_mul_cancel₀ _ (by positivity)]
  rw [hsize] at habove ⊢
  rw [add_comm, zpow_add₀ two_ne_zero, mul_le_mul_iff_left₀ (by positivity)] at habove
  have hnormal : 2 ^ 52 ≤ mantissa ∨ (place + 1074).toNat = 0 := by
    rcases habove with habove | rfl
    · left
      have : ((2 ^ 52 : Nat) : ℚ) < (mantissa + 1 : Nat) := by
        push_cast
        linarith
      have : 2 ^ 52 < mantissa + 1 := by exact_mod_cast this
      omega
    · exact .inr rfl
  rw [hbits, min_eq_left (by omega)]
  rcases mantissaOf_exponentOf hmantissa hnormal with ⟨hm, he⟩ | ⟨rfl, hm, he⟩
  · have hquarters : s * 2 ^ place = 4 * s * 2 ^ (place - 2) := by
      rw [zpow_sub₀ two_ne_zero]
      ring
    rw [hm, he, show ((place + 1074).toNat : ℤ) - 1074 = place by omega, hquarters, has_around_iff]
    rcases @reachBelow_cases mantissa place with ⟨hreach, rfl, hplace⟩ | ⟨hreach, -⟩
    · -- A power of two is the least number that is given its last place.
      have habove := habove.resolve_right hplace.ne'
      rw [hreach]
      push_cast at hup ⊢
      exact ⟨by linarith, by linarith, by linarith, fun hodd => absurd rfl hodd⟩
    · rw [hreach]
      push_cast
      refine ⟨by linarith, by linarith, by linarith, fun hodd => ?_⟩
      obtain ⟨hlt, hgt⟩ := hinside hodd
      exact ⟨by linarith, by linarith⟩
  · have hquarters : s * 2 ^ place = 2 * s * 2 ^ (place + 1 - 2) := by
      rw [show place + 1 - 2 = place - 1 by ring, zpow_sub₀ two_ne_zero]
      ring
    rw [hm, he, show ((place + 1074).toNat : ℤ) - 1073 = place + 1 by omega, hquarters,
      has_around_iff]
    have hreach : reachBelow (2 ^ 52) (place + 1) = 1 := by
      have := @reachBelow_cases (2 ^ 52) (place + 1)
      omega
    rw [hreach]
    push_cast at hdown hup ⊢
    exact ⟨by linarith, by linarith, by linarith, fun hodd => absurd rfl hodd⟩

end TemplateEngine.Decimal
