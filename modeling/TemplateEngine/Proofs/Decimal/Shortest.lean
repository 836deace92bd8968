import TemplateEngine.Proofs.Decimal.Rounding

/-!
The shortest decimal of a double. Main statements: seventeen digits always suffice, and of all the
decimals that are rounded to the double none lies on a coarser grid than the one that is chosen, and
none on its grid is nearer.
-/

namespace TemplateEngine.Decimal

namespace Interval

variable {i : Interval} {r s t : ℚ}

theorem Has.convex (hr : i.Has r) (ht : i.Has t) (hrs : r ≤ s) (hst : s ≤ t) : i.Has s where
  low_le := hr.low_le.trans hrs
  le_high := hst.trans ht.le_high
  inside hopen := ⟨(hr.inside hopen).1.trans_le hrs, hst.trans_lt (ht.inside hopen).2⟩

/-- The check of a decimal is exact. -/
theorem holds_iff (hden : 0 < i.den) (digits : Nat) (exponent : Int) :
    i.holds digits exponent = true ↔ i.Has (digits * 10 ^ exponent) := by
  have hden' : (0 : ℚ) < i.den := by exact_mod_cast hden
  have hratio := scaleDown_ratio 10 (digits * i.den) 1 (-exponent) (by decide)
  have hpos := scaleDown_pos 10 (digits * i.den) 1 (-exponent) (by decide) (by decide)
  unfold holds
  generalize scaleDown 10 (digits * i.den) 1 (-exponent) = point at hratio hpos
  have hpos' : (0 : ℚ) < point.2 := by exact_mod_cast hpos
  have hpoint : (digits * 10 ^ exponent : ℚ) = point.1 / (i.den * point.2) := by
    rw [mul_comm (i.den : ℚ), ← div_div, hratio, zpow_neg]
    push_cast
    field_simp
  have hle : (i.low : ℚ) / i.den ≤ digits * 10 ^ exponent ↔ i.low * point.2 ≤ point.1 := by
    rw [hpoint, ← div_div, div_right_comm, div_le_div_iff_of_pos_right hden', le_div_iff₀ hpos']
    exact_mod_cast Iff.rfl
  have hge : (digits * 10 ^ exponent : ℚ) ≤ i.high / i.den ↔ point.1 ≤ i.high * point.2 := by
    rw [hpoint, ← div_div, div_right_comm, div_le_div_iff_of_pos_right hden', div_le_iff₀ hpos']
    exact_mod_cast Iff.rfl
  have hlt : (i.low : ℚ) / i.den < digits * 10 ^ exponent ↔ i.low * point.2 < point.1 := by
    rw [hpoint, ← div_div, div_right_comm, div_lt_div_iff_of_pos_right hden', lt_div_iff₀ hpos']
    exact_mod_cast Iff.rfl
  have hgt : (digits * 10 ^ exponent : ℚ) < i.high / i.den ↔ point.1 < i.high * point.2 := by
    rw [hpoint, ← div_div, div_right_comm, div_lt_div_iff_of_pos_right hden', div_lt_iff₀ hpos']
    exact_mod_cast Iff.rfl
  cases hclosed : i.closed with
  | true =>
    simp only [if_true, Bool.and_eq_true, decide_eq_true_eq]
    rw [← hle, ← hge]
    exact ⟨fun h => ⟨h.1, h.2, fun hopen => by simp [hclosed] at hopen⟩,
      fun h => ⟨h.low_le, h.le_high⟩⟩
  | false =>
    simp only [Bool.false_eq_true, if_false, Bool.and_eq_true, decide_eq_true_eq]
    rw [← hlt, ← hgt]
    exact ⟨fun h => ⟨h.1.le, h.2.le, fun _ => h⟩, fun h => h.inside hclosed⟩

def center (i : Interval) : ℚ :=
  i.value / i.den

def lower (i : Interval) (exponent : Int) : Nat :=
  (scaleDown 10 i.value i.den exponent).1 / (scaleDown 10 i.value i.den exponent).2

theorem lower_bounds (hden : 0 < i.den) (exponent : Int) :
    (i.lower exponent : ℚ) * 10 ^ exponent ≤ i.center ∧
      i.center < (i.lower exponent + 1 : Nat) * 10 ^ exponent := by
  have hratio := scaleDown_ratio 10 i.value i.den exponent (by decide)
  have hpos := scaleDown_pos 10 i.value i.den exponent (by decide) hden
  unfold lower center
  generalize scaleDown 10 i.value i.den exponent = scaled at hratio hpos
  have hpos' : (0 : ℚ) < scaled.2 := by exact_mod_cast hpos
  have hunit : (0 : ℚ) < 10 ^ exponent := by positivity
  rw [Nat.cast_ofNat, eq_div_iff hunit.ne'] at hratio
  rw [← hratio, mul_le_mul_iff_left₀ hunit, mul_lt_mul_iff_left₀ hunit, le_div_iff₀ hpos',
    div_lt_iff₀ hpos']
  constructor
  · exact_mod_cast Nat.div_mul_le_self scaled.1 scaled.2
  · exact_mod_cast (Nat.div_lt_iff_lt_mul hpos).1 (Nat.lt_succ_self (scaled.1 / scaled.2))

structure IsAround (i : Interval) : Prop where
  den_pos : 0 < i.den
  has_center : i.Has i.center
  not_has_zero : ¬ i.Has 0

variable {exponent : Int} {k : Nat}

theorem IsAround.has_lower (hi : i.IsAround) (hk : i.Has (k * 10 ^ exponent))
    (h : k ≤ i.lower exponent) :
    i.lower exponent ≠ 0 ∧ i.Has (i.lower exponent * 10 ^ exponent) := by
  have hle : (k * 10 ^ exponent : ℚ) ≤ i.lower exponent * 10 ^ exponent :=
    mul_le_mul_of_nonneg_right (by exact_mod_cast h) (by positivity)
  have hhas := hk.convex hi.has_center hle (lower_bounds hi.den_pos exponent).1
  refine ⟨fun h0 => hi.not_has_zero ?_, hhas⟩
  rw [h0, Nat.cast_zero, zero_mul] at hhas
  exact hhas

theorem IsAround.has_upper (hi : i.IsAround) (hk : i.Has (k * 10 ^ exponent))
    (h : i.lower exponent < k) : i.Has ((i.lower exponent + 1 : Nat) * 10 ^ exponent) := by
  have hle : ((i.lower exponent + 1 : Nat) * 10 ^ exponent : ℚ) ≤ k * 10 ^ exponent :=
    mul_le_mul_of_nonneg_right (by exact_mod_cast h) (by positivity)
  exact hi.has_center.convex hk (lower_bounds hi.den_pos exponent).2.le hle

/-- A point of a grid that lies in an interval, and no point there that does is nearer to the
center; of two that are equally near, it is the greater one. -/
structure IsNearest (i : Interval) (exponent : Int) (k : Nat) : Prop where
  has : i.Has (k * 10 ^ exponent)
  le {k' : Nat} (h : i.Has (k' * 10 ^ exponent)) :
    |k * 10 ^ exponent - i.center| ≤ |k' * 10 ^ exponent - i.center|
  le_of_eq {k' : Nat} (h : i.Has (k' * 10 ^ exponent))
    (heq : |k * 10 ^ exponent - i.center| = |k' * 10 ^ exponent - i.center|) : k' ≤ k

/-- The choice between the neighbours of the center, which takes the upper one of two that are
equally near. -/
theorem onGrid?_up (hden : 0 < i.den) (exponent : Int) :
    i.onGrid? .up exponent =
      if i.lower exponent ≠ 0 ∧ i.holds (i.lower exponent) exponent = true then
        if i.holds (i.lower exponent + 1) exponent = true then
          if i.center - i.lower exponent * 10 ^ exponent <
              (i.lower exponent + 1 : Nat) * 10 ^ exponent - i.center then
            some ⟨i.lower exponent, exponent⟩
          else some ⟨i.lower exponent + 1, exponent⟩
        else some ⟨i.lower exponent, exponent⟩
      else if i.holds (i.lower exponent + 1) exponent = true then
        some ⟨i.lower exponent + 1, exponent⟩
      else none := by
  have hratio := scaleDown_ratio 10 i.value i.den exponent (by decide)
  have hpos := scaleDown_pos 10 i.value i.den exponent (by decide) hden
  have hunit : (0 : ℚ) < 10 ^ exponent := by positivity
  rw [Nat.cast_ofNat, eq_div_iff hunit.ne'] at hratio
  unfold onGrid? lower center
  rw [← hratio]
  generalize scaleDown 10 i.value i.den exponent = scaled at hpos
  have hpos' : (0 : ℚ) < scaled.2 := by exact_mod_cast hpos
  have hnearer : (scaled.1 / scaled.2 : ℚ) * 10 ^ exponent -
      (scaled.1 / scaled.2 : Nat) * 10 ^ exponent <
        (scaled.1 / scaled.2 + 1 : Nat) * 10 ^ exponent -
          (scaled.1 / scaled.2 : ℚ) * 10 ^ exponent ↔
      2 * (scaled.1 % scaled.2) < scaled.2 := by
    have hhalf : (2 : ℚ) * ((scaled.1 % scaled.2 : Nat) / scaled.2) < 1 ↔
        2 * (scaled.1 % scaled.2) < scaled.2 := by
      rw [← mul_div_assoc, div_lt_one hpos']
      exact_mod_cast Iff.rfl
    rw [← hhalf, ← sub_mul, ← sub_mul, mul_lt_mul_iff_left₀ hunit, ratio_eq_add scaled.1 hpos]
    push_cast
    constructor <;> intro <;> linarith
  simp only [hnearer]
  by_cases hzero : scaled.1 / scaled.2 = 0
  · cases i.holds (scaled.1 / scaled.2 + 1) exponent <;> simp [hzero]
  · have hne : (scaled.1 / scaled.2 != 0) = true := bne_iff_ne.2 hzero
    cases i.holds (scaled.1 / scaled.2) exponent <;>
      cases i.holds (scaled.1 / scaled.2 + 1) exponent <;> simp [hzero, hne]
    split <;> rfl

/-- A grid is passed over only if none of its points lies in the interval. -/
theorem IsAround.onGrid?_eq_none (hi : i.IsAround) (h : i.onGrid? .up exponent = none) (k : Nat) :
    ¬ i.Has (k * 10 ^ exponent) := by
  intro hk
  rw [onGrid?_up hi.den_pos] at h
  rcases Nat.lt_or_ge (i.lower exponent) k with hlt | hge
  · have hupper := (holds_iff hi.den_pos _ _).2 (hi.has_upper hk hlt)
    rw [if_pos hupper, if_pos hupper] at h
    split_ifs at h
  · obtain ⟨hne, hhas⟩ := hi.has_lower hk hge
    rw [if_pos ⟨hne, (holds_iff hi.den_pos _ _).2 hhas⟩] at h
    split_ifs at h

theorem grid_mono (exponent : Int) {k k' : Nat} (h : k ≤ k') :
    (k * 10 ^ exponent : ℚ) ≤ k' * 10 ^ exponent :=
  mul_le_mul_of_nonneg_right (by exact_mod_cast h) (by positivity)

theorem abs_of_le_lower (hden : 0 < i.den) (h : k ≤ i.lower exponent) :
    |(k * 10 ^ exponent : ℚ) - i.center| = i.center - k * 10 ^ exponent := by
  have hlower := (lower_bounds hden exponent).1
  rw [abs_sub_comm, abs_of_nonneg]
  linarith [grid_mono exponent h]

theorem abs_of_lower_lt (hden : 0 < i.den) (h : i.lower exponent < k) :
    |(k * 10 ^ exponent : ℚ) - i.center| = k * 10 ^ exponent - i.center := by
  have hupper := (lower_bounds hden exponent).2
  rw [abs_of_nonneg]
  linarith [grid_mono exponent (Nat.succ_le_of_lt h)]

/-- The lower neighbour is the nearest one if the upper one is farther away or outside. -/
theorem IsAround.isNearest_lower (hi : i.IsAround) (h : i.Has (i.lower exponent * 10 ^ exponent))
    (hnearer : i.Has ((i.lower exponent + 1 : Nat) * 10 ^ exponent) →
      i.center - i.lower exponent * 10 ^ exponent <
        (i.lower exponent + 1 : Nat) * 10 ^ exponent - i.center) :
    i.IsNearest exponent (i.lower exponent) := by
  have hbelow {k' : Nat} (hk' : k' ≤ i.lower exponent) :
      |i.lower exponent * 10 ^ exponent - i.center| ≤ |k' * 10 ^ exponent - i.center| := by
    rw [abs_of_le_lower hi.den_pos le_rfl, abs_of_le_lower hi.den_pos hk']
    linarith [grid_mono exponent hk']
  have habove {k' : Nat} (hhas : i.Has (k' * 10 ^ exponent)) (hk' : i.lower exponent < k') :
      |i.lower exponent * 10 ^ exponent - i.center| < |k' * 10 ^ exponent - i.center| := by
    rw [abs_of_le_lower hi.den_pos le_rfl, abs_of_lower_lt hi.den_pos hk']
    linarith [grid_mono exponent (Nat.succ_le_of_lt hk'), hnearer (hi.has_upper hhas hk')]
  refine ⟨h, fun {k'} hhas => ?_, fun {k'} hhas heq => ?_⟩
  · rcases Nat.lt_or_ge (i.lower exponent) k' with hk' | hk'
    · exact (habove hhas hk').le
    · exact hbelow hk'
  · by_contra hk'
    exact (habove hhas (not_le.1 hk')).ne heq

/-- The upper neighbour is the nearest one if the lower one is no nearer or outside. -/
theorem IsAround.isNearest_upper (hi : i.IsAround)
    (h : i.Has ((i.lower exponent + 1 : Nat) * 10 ^ exponent))
    (hnearer : i.lower exponent ≠ 0 ∧ i.Has (i.lower exponent * 10 ^ exponent) →
      (i.lower exponent + 1 : Nat) * 10 ^ exponent - i.center ≤
        i.center - i.lower exponent * 10 ^ exponent) :
    i.IsNearest exponent (i.lower exponent + 1) := by
  have hdistance := abs_of_lower_lt hi.den_pos (Nat.lt_succ_self (i.lower exponent))
  refine ⟨h, fun {k'} hhas => ?_, fun {k'} hhas heq => ?_⟩
  · rw [hdistance]
    rcases Nat.lt_or_ge (i.lower exponent) k' with hk' | hk'
    · rw [abs_of_lower_lt hi.den_pos hk']
      linarith [grid_mono exponent (Nat.succ_le_of_lt hk')]
    · rw [abs_of_le_lower hi.den_pos hk']
      linarith [grid_mono exponent hk', hnearer (hi.has_lower hhas hk')]
  · by_contra hk'
    have hk' := not_le.1 hk'
    rw [hdistance, abs_of_lower_lt hi.den_pos (by omega), sub_left_inj,
      mul_left_inj' (by positivity)] at heq
    have : i.lower exponent + 1 = k' := by exact_mod_cast heq
    omega

/-- What is found on a grid is the point there that is nearest to the center. -/
theorem IsAround.onGrid?_eq_some (hi : i.IsAround) {d : Digits}
    (h : i.onGrid? .up exponent = some d) :
    d.exponent = exponent ∧ i.IsNearest exponent d.digits := by
  rw [onGrid?_up hi.den_pos] at h
  have hholds (k : Nat) := holds_iff hi.den_pos k exponent
  split_ifs at h with hlower hupper hnearer hupper
  · obtain rfl := Option.some.inj h
    exact ⟨rfl, hi.isNearest_lower ((hholds _).1 hlower.2) fun _ => hnearer⟩
  · obtain rfl := Option.some.inj h
    exact ⟨rfl, hi.isNearest_upper ((hholds _).1 hupper) fun _ => not_lt.1 hnearer⟩
  · obtain rfl := Option.some.inj h
    exact ⟨rfl, hi.isNearest_lower ((hholds _).1 hlower.2) fun hhas =>
      absurd ((hholds _).2 hhas) hupper⟩
  · obtain rfl := Option.some.inj h
    exact ⟨rfl, hi.isNearest_upper ((hholds _).1 hupper) fun hhas =>
      absurd ⟨hhas.1, (hholds _).2 hhas.2⟩ hlower⟩

end Interval

section

variable {mantissa : Nat} {exponent : Int}

theorem around_den_pos : 0 < (Interval.around mantissa exponent).den :=
  scaleDown_pos 2 1 1 (2 - exponent) (by decide) (by decide)

theorem center_around :
    (Interval.around mantissa exponent).center = 4 * mantissa * 2 ^ (exponent - 2) := by
  have hratio := scaleDown_ratio 2 1 1 (2 - exponent) (by decide)
  have hvalue : (Interval.around mantissa exponent).center =
      ((4 * mantissa * (scaleDown 2 1 1 (2 - exponent)).1 : Nat) : ℚ) /
        (scaleDown 2 1 1 (2 - exponent)).2 := rfl
  rw [hvalue, Nat.cast_mul, mul_div_assoc, hratio, show exponent - 2 = -(2 - exponent) by ring,
    zpow_neg]
  push_cast
  ring

/-- A number that is nearer to the double than the ends of its interval. -/
theorem has_of_near {r : ℚ} (hm : 0 < mantissa)
    (hbelow : (Interval.around mantissa exponent).center - r <
      reachBelow mantissa exponent * 2 ^ (exponent - 2))
    (habove : r - (Interval.around mantissa exponent).center < 2 * 2 ^ (exponent - 2)) :
    (Interval.around mantissa exponent).Has r := by
  have hreach : reachBelow mantissa exponent ≤ 4 * mantissa := by
    have := @reachBelow_cases mantissa exponent
    omega
  have hreach : (reachBelow mantissa exponent : ℚ) ≤ 4 * mantissa := by exact_mod_cast hreach
  have hunit : (0 : ℚ) < 2 ^ (exponent - 2) := by positivity
  obtain ⟨t, rfl⟩ := exists_quarters exponent r
  rw [center_around, ← sub_mul, mul_lt_mul_iff_left₀ hunit] at hbelow habove
  exact has_around_iff.2 ⟨by linarith, by linarith, by linarith,
    fun _ => ⟨by linarith, by linarith⟩⟩

theorem isAround_around (hm : 0 < mantissa) : (Interval.around mantissa exponent).IsAround where
  den_pos := around_den_pos
  has_center := by
    have hreach : 0 < reachBelow mantissa exponent := by
      have := @reachBelow_cases mantissa exponent
      omega
    have hreach : (0 : ℚ) < reachBelow mantissa exponent := by exact_mod_cast hreach
    exact has_of_near hm (by rw [sub_self]; positivity) (by rw [sub_self]; positivity)
  not_has_zero := by
    intro hzero
    rw [← zero_mul (2 ^ (exponent - 2) : ℚ), has_around_iff, zero_add] at hzero
    have hle : 4 * mantissa ≤ reachBelow mantissa exponent := by exact_mod_cast hzero.2.1
    have := @reachBelow_cases mantissa exponent
    omega

end

theorem digitCount_bounds {n : Nat} (hn : 0 < n) :
    10 ^ (digitCount n - 1) ≤ n ∧ n < 10 ^ digitCount n := by
  have hpos : 0 < digitCount n := Nat.length_toDigits_pos
  have hcount (k : Nat) (hk : 0 < k) : digitCount n ≤ k ↔ n < 10 ^ k :=
    Nat.length_toDigits_le_iff (by decide) hk
  constructor
  · by_cases hone : digitCount n = 1
    · rw [hone]
      exact hn
    · rw [← not_lt, ← hcount _ (by omega)]
      omega
  · exact (hcount _ hpos).1 le_rfl

/-- A positive ratio is at least the power of ten of its leading digit, and less than ten times
that. -/
theorem leadingExponent_bounds {num den : Nat} (hnum : 0 < num) (hden : 0 < den) :
    (10 : ℚ) ^ leadingExponent num den ≤ num / den ∧
      (num / den : ℚ) < 10 ^ (leadingExponent num den + 1) := by
  have hden' : (0 : ℚ) < den := by exact_mod_cast hden
  have hcount (n : Nat) : 0 < digitCount n := Nat.length_toDigits_pos
  unfold leadingExponent
  rw [le_div_iff₀ hden', div_lt_iff₀ hden']
  split
  · next h =>
    obtain ⟨hlow, hhigh⟩ := digitCount_bounds (Nat.div_pos h hden)
    have hcount := hcount (num / den)
    generalize digitCount (num / den) = count at *
    obtain ⟨k, rfl⟩ : ∃ k, count = k + 1 := ⟨count - 1, by omega⟩
    have hexponent : Int.ofNat (k + 1) - 1 = k := by simp
    rw [hexponent, zpow_natCast, ← Nat.cast_succ, zpow_natCast]
    constructor
    · exact_mod_cast (Nat.le_div_iff_mul_le hden).1 hlow
    · exact_mod_cast (Nat.div_lt_iff_lt_mul hden).1 hhigh
  · next h =>
    have hquotient : 0 < (den - 1) / num := Nat.div_pos (by omega) hnum
    obtain ⟨hlow, hhigh⟩ := digitCount_bounds hquotient
    have hcount := hcount ((den - 1) / num)
    generalize digitCount ((den - 1) / num) = count at *
    obtain ⟨k, rfl⟩ : ∃ k, count = k + 1 := ⟨count - 1, by omega⟩
    have hexponent : -Int.ofNat (k + 1) + 1 = -k := by simp
    rw [hexponent, Int.ofNat_eq_natCast, zpow_neg, zpow_neg, zpow_natCast, zpow_natCast,
      inv_mul_le_iff₀ (by positivity), lt_inv_mul_iff₀ (by positivity)]
    have hbelow := (Nat.le_div_iff_mul_le hnum).1 hlow
    have habove := (Nat.div_lt_iff_lt_mul hnum).1 hhigh
    rw [Nat.add_sub_cancel] at hbelow
    constructor
    · exact_mod_cast (by omega : den ≤ 10 ^ (k + 1) * num)
    · exact_mod_cast (by omega : 10 ^ k * num < den)

def Digits.value (d : Digits) : ℚ :=
  d.digits * 10 ^ d.exponent

/-- Trailing zeros are moved without a change of the number. -/
theorem trim_spec (fuel : Nat) (d : Digits) :
    (d.trim fuel).value = d.value ∧ d.exponent ≤ (d.trim fuel).exponent ∧
      (d.digits ≠ 0 → (d.trim fuel).digits ≠ 0) := by
  induction fuel generalizing d with
  | zero => exact ⟨rfl, le_rfl, id⟩
  | succ fuel ih =>
    unfold Digits.trim
    split
    · next h =>
      rw [Bool.and_eq_true, bne_iff_ne, beq_iff_eq] at h
      obtain ⟨hvalue, hexponent, hdigits⟩ := ih ⟨d.digits / 10, d.exponent + 1⟩
      have hexponent : d.exponent + 1 ≤ _ := hexponent
      have htenth : d.digits / 10 ≠ 0 := by omega
      refine ⟨hvalue.trans ?_, by omega, fun _ => hdigits htenth⟩
      obtain ⟨tenth, htenth⟩ : ∃ tenth, d.digits = tenth * 10 := ⟨d.digits / 10, by omega⟩
      unfold Digits.value
      simp only [htenth, Nat.mul_div_cancel _ (show 0 < 10 by decide)]
      rw [zpow_add_one₀ (by norm_num)]
      push_cast
      ring
    · exact ⟨rfl, le_rfl, id⟩

section

variable {mantissa : Nat} {exponent : Int}

def leadingPlace (mantissa : Nat) (exponent : Int) : Int :=
  leadingExponent (Interval.around mantissa exponent).value (Interval.around mantissa exponent).den

theorem leadingPlace_bounds (hm : 0 < mantissa) :
    (10 : ℚ) ^ leadingPlace mantissa exponent ≤ (Interval.around mantissa exponent).center ∧
      (Interval.around mantissa exponent).center < 10 ^ (leadingPlace mantissa exponent + 1) :=
  leadingExponent_bounds
    (Nat.mul_pos (by omega) (scaleDown_num_pos 2 1 1 (2 - exponent) (by decide) (by decide)))
    around_den_pos

/-- Seventeen digits always suffice: their last place is less than the interval is wide. -/
theorem exists_has_seventeen (hm : IsCanonical mantissa exponent) (hpos : 0 < mantissa) :
    ∃ k : Nat, (Interval.around mantissa exponent).Has
      (k * 10 ^ (leadingPlace mantissa exponent - 16)) := by
  have hlead := (@leadingPlace_bounds mantissa exponent hpos).1
  obtain ⟨hlower, hupper⟩ := Interval.lower_bounds (@around_den_pos mantissa exponent)
    (leadingPlace mantissa exponent - 16)
  have hunit : (10 : ℚ) ^ leadingPlace mantissa exponent =
      10 ^ (leadingPlace mantissa exponent - 16) * 10 ^ 16 := by
    rw [zpow_sub₀ (by norm_num)]
    norm_num
  have hmantissa : (mantissa : ℚ) ≤ 2 ^ 53 := by exact_mod_cast hm.mantissa_lt.le
  have hquarter : (0 : ℚ) < 2 ^ (exponent - 2) := by positivity
  have hcenter := @center_around mantissa exponent
  have hsize : (Interval.around mantissa exponent).center ≤ 4 * 2 ^ 53 * 2 ^ (exponent - 2) := by
    rw [hcenter]
    gcongr
  rw [hunit] at hlead
  generalize (Interval.around mantissa exponent).lower (leadingPlace mantissa exponent - 16) = k
    at *
  push_cast at hupper
  rcases @reachBelow_cases mantissa exponent with ⟨hreach, rfl, -⟩ | ⟨hreach, -⟩
  · -- Below a power of two the interval is narrower, but above it is wide enough.
    refine ⟨k + 1, has_of_near hpos ?_ ?_⟩ <;> rw [hreach] at * <;> push_cast at * <;> linarith
  · rcases le_total ((Interval.around mantissa exponent).center -
      k * 10 ^ (leadingPlace mantissa exponent - 16))
      ((k + 1) * 10 ^ (leadingPlace mantissa exponent - 16) -
        (Interval.around mantissa exponent).center) with h | h
    · exact ⟨k, has_of_near hpos (by rw [hreach]; push_cast; linarith) (by linarith)⟩
    · refine ⟨k + 1, has_of_near hpos ?_ ?_⟩
      · rw [hreach]
        push_cast
        linarith
      · push_cast
        linarith

/-- The grid on which the shortest decimal of a double lies: no coarser one has a point in the
interval, and on this one it is the nearest point. -/
structure IsChosen (mantissa : Nat) (exponent places : Int) (k : Nat) : Prop where
  nearest : (Interval.around mantissa exponent).IsNearest places k
  le_leadingPlace : places ≤ leadingPlace mantissa exponent
  coarsest {places' : Int} (hlt : places < places')
    (hle : places' ≤ leadingPlace mantissa exponent) (k' : Nat) :
    ¬ (Interval.around mantissa exponent).Has (k' * 10 ^ places')

theorem findSome?_range {α : Type} {f : Nat → Option α} {n : Nat} {a : α}
    (h : (List.range n).findSome? f = some a) : ∃ k, f k = some a ∧ ∀ i < k, f i = none := by
  induction n with
  | zero => cases h
  | succ n ih =>
    rw [List.range_succ, List.findSome?_append, Option.or_eq_some_iff] at h
    rcases h with h | ⟨hnone, h⟩
    · exact ih h
    · refine ⟨n, by simpa using h, fun i hi => ?_⟩
      exact List.findSome?_eq_none_iff.1 hnone i (List.mem_range.2 hi)

/-- What is taken for the shortest decimal. -/
theorem exists_isChosen (hm : IsCanonical mantissa exponent) (hpos : 0 < mantissa) :
    ∃ places k, IsChosen mantissa exponent places k ∧
      (shortest .up mantissa exponent).value = k * 10 ^ places ∧
      places ≤ (shortest .up mantissa exponent).exponent ∧
      (shortest .up mantissa exponent).digits ≠ 0 := by
  have hi := @isAround_around mantissa exponent hpos
  have hfound : ((List.range 17).findSome? fun n => (Interval.around mantissa exponent).onGrid? .up
      (leadingPlace mantissa exponent - Int.ofNat n)).isSome = true := by
    obtain ⟨k, hk⟩ := exists_has_seventeen hm hpos
    rw [List.findSome?_isSome_iff]
    refine ⟨16, by simp, Option.isSome_iff_ne_none.2 fun hnone => ?_⟩
    exact hi.onGrid?_eq_none hnone k hk
  obtain ⟨d, hd⟩ := Option.isSome_iff_exists.1 hfound
  have hshortest : shortest .up mantissa exponent = d.trim 18 := by
    show (Option.getD ((List.range 17).findSome? fun n =>
      (Interval.around mantissa exponent).onGrid? .up
        (leadingPlace mantissa exponent - Int.ofNat n)) ⟨0, 0⟩).trim 18 = _
    rw [hd]
    rfl
  obtain ⟨n, hn, hbefore⟩ := findSome?_range hd
  obtain ⟨hexponent, hnearest⟩ := hi.onGrid?_eq_some hn
  rw [Int.ofNat_eq_natCast] at hexponent
  obtain ⟨hvalue, hle, hdigits⟩ := trim_spec 18 d
  rw [hshortest, hvalue]
  refine ⟨d.exponent, d.digits, ⟨hexponent ▸ hnearest, by omega, ?_⟩, rfl, hle, hdigits ?_⟩
  · intro places' hlt hle k'
    obtain ⟨i, rfl⟩ : ∃ i : Nat, places' = leadingPlace mantissa exponent - Int.ofNat i :=
      ⟨(leadingPlace mantissa exponent - places').toNat, by
        rw [Int.ofNat_eq_natCast]
        omega⟩
    rw [Int.ofNat_eq_natCast] at hlt
    exact hi.onGrid?_eq_none (hbefore i (by omega)) k'
  · intro hzero
    have := hnearest.has
    rw [hzero, Nat.cast_zero, zero_mul] at this
    exact hi.not_has_zero this

end

end TemplateEngine.Decimal
