import TemplateEngine.Proofs.Decimal.Printed

/-!
The texts of integers that are taken as doubles. Main statement: such a text is the roundest of the
integers that share the double, so that only that one is printed with its own digits.
-/

namespace TemplateEngine.Decimal

theorem nearestBits_le (num den : Nat) : nearestBits num den ≤ infinityBits := by
  unfold nearestBits
  split
  · exact Nat.zero_le _
  · exact min_le_right _ _

/-- The bits of an integer grow with its length. -/
theorem nearestBits_one_le {n length : Nat} (hn : n < 2 ^ length) :
    nearestBits n 1 ≤ (length + 1023) * 2 ^ 52 := by
  obtain rfl | hpos := Nat.eq_zero_or_pos n
  · exact Nat.zero_le _
  obtain ⟨place, -, hbelow, habove, hbits⟩ := exists_place hpos (by decide : 0 < 1)
  have hmantissa := roundHalfEven_le (by decide) hbelow
  have hplace : place ≤ length - 53 ∨ place = -1074 := by
    refine habove.imp_left fun habove => ?_
    have hlt : (2 : ℚ) ^ (place + 52) < 2 ^ (length : ℤ) := by
      rw [Nat.cast_one, div_one] at habove
      exact habove.trans_lt (by exact_mod_cast hn)
    have := (zpow_lt_zpow_iff_right₀ one_lt_two).1 hlt
    omega
  rw [hbits]
  omega

theorem lt_infinityBits {n : Nat} (hn : n < 2 ^ 100) : nearestBits n 1 < infinityBits := by
  have := nearestBits_one_le hn
  rw [infinityBits, power_eq]
  omega

theorem ofFloat_ofInteger_eq (n : Int) (hn : n.natAbs < 2 ^ 100) :
    Binary.ofFloat (ofInteger n) = ⟨decide (n < 0), mantissaOf (nearestBits n.natAbs 1),
      exponentOf (nearestBits n.natAbs 1)⟩ :=
  ofFloat_ofSignBits _ (lt_infinityBits hn).le

theorem isFinite_ofInteger_of_lt {n : Int} (hn : n.natAbs < 2 ^ 100) :
    (ofInteger n).isFinite = true :=
  isFinite_ofSignBits _ (lt_infinityBits hn)

/-- The sign has no part in what an integer is rounded to. -/
theorem around_ofInteger_natAbs {n : Int} (hn : n.natAbs < 2 ^ 100) :
    around (ofInteger n) = around (ofInteger n.natAbs) := by
  unfold around
  rw [ofFloat_ofInteger_eq n hn, ofFloat_ofInteger_eq n.natAbs (by rwa [Int.natAbs_natCast]),
    Int.natAbs_natCast]

theorem has_ofInteger {n : Nat} (hn : n < 2 ^ 100) : (around (ofInteger n)).Has n := by
  have hhas := has_nearestBits n (by decide : 0 < 1) (lt_infinityBits hn)
  unfold around
  rw [ofFloat_ofInteger_eq n (by rwa [Int.natAbs_natCast]), Int.natAbs_natCast]
  rwa [Nat.cast_one, div_one] at hhas

/-- A number that is rounded to a double is at most half of its last place away. -/
theorem abs_sub_size_le {x : Float} {r : ℚ} (h : (around x).Has r) :
    |r - size x| ≤ 2 ^ ((Binary.ofFloat x).exponent - 1) := by
  unfold around at h
  obtain ⟨t, rfl⟩ := exists_quarters (Binary.ofFloat x).exponent r
  obtain ⟨-, hle, hge, -⟩ := has_around_iff.1 h
  have hreach : reachBelow (Binary.ofFloat x).mantissa (Binary.ofFloat x).exponent ≤ 2 := by
    have := @reachBelow_cases (Binary.ofFloat x).mantissa (Binary.ofFloat x).exponent
    omega
  have hreach : (reachBelow (Binary.ofFloat x).mantissa (Binary.ofFloat x).exponent : ℚ) ≤ 2 := by
    exact_mod_cast hreach
  have hhalf : (2 : ℚ) ^ ((Binary.ofFloat x).exponent - 1) =
      2 * 2 ^ ((Binary.ofFloat x).exponent - 2) := by
    rw [zpow_sub₀ two_ne_zero, zpow_sub₀ two_ne_zero]
    ring
  have hunit : (0 : ℚ) < 2 ^ ((Binary.ofFloat x).exponent - 2) := by positivity
  rw [← center_eq_size, around, center_around, ← sub_mul, abs_mul, abs_of_pos hunit, hhalf,
    mul_le_mul_iff_left₀ hunit, abs_le]
  constructor <;> linarith

theorem sign_natCast (n : Nat) : decide ((n : Int) < 0) = false :=
  decide_eq_false (by omega)

theorem toBits_ofInteger (n : Int) :
    (ofInteger n).toBits.toNat =
      if n < 0 then 2 ^ 63 + nearestBits n.natAbs 1 else nearestBits n.natAbs 1 := by
  unfold ofInteger
  rw [toBits_ofSignBits _ (nearestBits_le _ 1)]
  simp only [decide_eq_true_eq]

theorem isNaN_ofInteger (n : Int) : (ofInteger n).isNaN = false := by
  have hnan : Float.nan.toBits.toNat = 2047 * 2 ^ 52 + 2 ^ 51 := rfl
  have hbits := toBits_ofInteger n
  have hbound := nearestBits_le n.natAbs 1
  rw [infinityBits, power_eq] at hbound
  rw [Float.isNaN_eq_decide_eq_nan, decide_eq_false_iff_not]
  intro heq
  rw [heq, hnan] at hbits
  split at hbits <;> omega

theorem nearestBits_eq_of_ofInteger_eq {k n : Nat} (h : ofInteger k = ofInteger n) :
    nearestBits k 1 = nearestBits n 1 := by
  have hbits (m : Nat) : (ofInteger m).toBits.toNat = nearestBits m 1 := by
    rw [toBits_ofInteger, if_neg (by omega), Int.natAbs_natCast]
  rw [← hbits, ← hbits, h]

theorem lt_of_has {n k : Nat} (hn : n < 2 ^ 64) (h : (around (ofInteger n)).Has k) :
    k < 2 ^ 100 := by
  have hexponent : (Binary.ofFloat (ofInteger n)).exponent ≤ 12 := by
    have := nearestBits_one_le hn
    rw [ofFloat_ofInteger_eq n (by omega), Int.natAbs_natCast]
    show exponentOf _ ≤ 12
    unfold exponentOf
    omega
  have hmantissa := (isCanonical_ofFloat (ofInteger n)).mantissa_lt
  have hsize : size (ofInteger n) ≤ 2 ^ 53 * 2 ^ (12 : ℤ) := by
    unfold size
    gcongr
    · exact_mod_cast hmantissa.le
    · exact one_le_two
  have hhalf : (2 : ℚ) ^ ((Binary.ofFloat (ofInteger n)).exponent - 1) ≤ 2 ^ (12 : ℤ) :=
    zpow_le_zpow_right₀ one_le_two (by omega)
  have hnear := (abs_le.1 (abs_sub_size_le h)).2
  have hbound : (2 ^ 53 * 2 ^ (12 : ℤ) + 2 ^ (12 : ℤ) : ℚ) < 2 ^ 100 := by norm_num
  have hlt : (k : ℚ) < 2 ^ 100 := by linarith
  exact_mod_cast hlt

/-- The integers that share the double of an integer are those that are rounded to it. -/
theorem ofInteger_eq_iff_has {n k : Nat} (hn : n < 2 ^ 64) :
    ofInteger k = ofInteger n ↔ (around (ofInteger n)).Has k := by
  have hsmall : (n : Int).natAbs < 2 ^ 100 := by omega
  have hn' := ofFloat_ofInteger_eq n hsmall
  rw [Int.natAbs_natCast] at hn'
  constructor
  · intro h
    have hbits := nearestBits_eq_of_ofInteger_eq h
    have hhas := has_nearestBits k (by decide : 0 < 1)
      (hbits ▸ lt_infinityBits (hn.trans (by decide)))
    rw [hbits, Nat.cast_one, div_one] at hhas
    unfold around
    rwa [hn']
  · intro h
    have hk := lt_of_has hn h
    have hk' := ofFloat_ofInteger_eq k (by rwa [Int.natAbs_natCast])
    rw [Int.natAbs_natCast] at hk'
    obtain ⟨hmantissa, hexponent⟩ := eq_of_has (isCanonical_ofFloat (ofInteger k))
      (isCanonical_ofFloat (ofInteger n)) (has_ofInteger hk) h
    apply ofFloat_injective
    rw [Binary.mk.injEq]
    refine ⟨?_, hmantissa, hexponent⟩
    rw [hk', hn']
    exact (sign_natCast k).trans (sign_natCast n).symm

theorem size_ofInteger {n : Nat} (hn : n < 2 ^ 53) : size (ofInteger n) = n :=
  (natAbs_of_integer? (integer?_ofInteger hn)).symm

/-- Below `2 ^ 53` no two integers share a double. -/
theorem eq_of_ofInteger_eq {n k : Nat} (hn : n < 2 ^ 53) (h : ofInteger k = ofInteger n) :
    k = n := by
  have hexponent : (Binary.ofFloat (ofInteger n)).exponent ≤ 0 := by
    obtain rfl | hpos := Nat.eq_zero_or_pos n
    · decide
    · have hlog := log2_le_of_lt hn
      rw [ofFloat_ofInteger hpos.ne' hn]
      show (n.log2 : ℤ) - 52 ≤ 0
      omega
  have hnear := abs_sub_size_le ((ofInteger_eq_iff_has (hn.trans (by decide))).1 h)
  have hhalf : (2 : ℚ) ^ ((Binary.ofFloat (ofInteger n)).exponent - 1) ≤ 2 ^ (-1 : ℤ) :=
    zpow_le_zpow_right₀ one_le_two (by omega)
  rw [size_ofInteger hn] at hnear
  have hlt : |(k : ℚ) - n| < 1 := (hnear.trans hhalf).trans_lt (by norm_num)
  have hlt : |(k : ℤ) - n| < 1 := by exact_mod_cast hlt
  rw [abs_lt] at hlt
  omega

theorem eq_zero_of_beq_zero {n : Int} (h : (ofInteger n == 0) = true) : n = 0 := by
  have hbits := toBits_ofInteger n
  have hbound := nearestBits_le n.natAbs 1
  rw [infinityBits, power_eq] at hbound
  have hzero : nearestBits n.natAbs 1 = 0 := by
    have hpositive : (0 : Float).toBits.toNat = 0 := rfl
    have hnegative : (-0 : Float).toBits.toNat = 2 ^ 63 := rfl
    obtain ⟨-, -, heq | ⟨heq, -⟩ | ⟨heq, -⟩⟩ := Float.beq_iff_ne_nan_and_eq.1 h <;>
      rw [heq] at hbits <;> split at hbits <;> omega
  have hdouble : ofInteger n.natAbs = ofInteger (0 : Nat) := by
    unfold ofInteger
    rw [sign_natCast, Int.natAbs_natCast, hzero]
    rfl
  exact Int.natAbs_eq_zero.1 (eq_of_ofInteger_eq (by decide) hdouble)

/-- Below `2 ^ 53` no integer but the number itself has an equal double. -/
theorem eq_of_ofInteger_beq {n : Int} {i : Nat} (hi : i < 2 ^ 53)
    (h : (ofInteger n == ofInteger i) = true) : n = i := by
  rcases eq_or_zero_of_beq h with heq | ⟨hn, hi⟩
  · have hbits := toBits_ofInteger n
    have hbound := nearestBits_le i 1
    rw [infinityBits, power_eq] at hbound
    rw [heq, toBits_ofInteger, if_neg (by omega), Int.natAbs_natCast] at hbits
    have hn : 0 ≤ n := by
      by_contra hn
      rw [if_pos (not_le.1 hn)] at hbits
      omega
    obtain ⟨k, rfl⟩ := Int.eq_ofNat_of_zero_le hn
    exact congrArg _ (eq_of_ofInteger_eq hi heq)
  · rw [eq_zero_of_beq_zero hn, eq_zero_of_beq_zero hi]

/-- An integer that is rounder than all others with the same double: none of them has more trailing
zeros, none that has as many is nearer to the double, and of two that are equally near it is the
greater one. -/
structure IsRoundest (n : Nat) : Prop where
  dvd {k places : Nat} (hk : ofInteger k = ofInteger n) (h : 10 ^ places ∣ k) : 10 ^ places ∣ n
  nearest {k : Nat} (hk : ofInteger k = ofInteger n)
    (h : ∀ places, 10 ^ places ∣ n → 10 ^ places ∣ k) :
    |(n : ℚ) - size (ofInteger n)| ≤ |(k : ℚ) - size (ofInteger n)|
  greatest {k : Nat} (hk : ofInteger k = ofInteger n)
    (h : ∀ places, 10 ^ places ∣ n → 10 ^ places ∣ k)
    (heq : |(n : ℚ) - size (ofInteger n)| = |(k : ℚ) - size (ofInteger n)|) : k ≤ n

/-- No two integers with one double are both the roundest. -/
theorem IsRoundest.eq {n k : Nat} (hn : IsRoundest n) (hk : IsRoundest k)
    (h : ofInteger k = ofInteger n) : k = n := by
  have hzeros (places : Nat) : 10 ^ places ∣ n → 10 ^ places ∣ k := hk.dvd h.symm
  have hzeros' (places : Nat) : 10 ^ places ∣ k → 10 ^ places ∣ n := hn.dvd h
  have hdistance : |(n : ℚ) - size (ofInteger n)| = |(k : ℚ) - size (ofInteger n)| := by
    apply le_antisymm (hn.nearest h hzeros)
    have := hk.nearest h.symm hzeros'
    rwa [h] at this
  apply le_antisymm (hn.greatest h hzeros hdistance)
  apply hk.greatest h.symm hzeros'
  rw [h, hdistance]

theorem isRoundest_of_lt {n : Nat} (hn : n < 2 ^ 53) : IsRoundest n where
  dvd hk h := eq_of_ofInteger_eq hn hk ▸ h
  nearest hk _ := by rw [eq_of_ofInteger_eq hn hk]
  greatest hk _ _ := (eq_of_ofInteger_eq hn hk).le

section

variable {x : Float}

def leading (x : Float) : Int :=
  leadingPlace (Binary.ofFloat x).mantissa (Binary.ofFloat x).exponent

theorem leading_bounds (hpos : 0 < (Binary.ofFloat x).mantissa) :
    (10 : ℚ) ^ leading x ≤ size x ∧ size x < 10 ^ (leading x + 1) :=
  center_eq_size x ▸ leadingPlace_bounds hpos

theorem mantissa_pos (hsize : 1 ≤ size x) : 0 < (Binary.ofFloat x).mantissa := by
  rw [Nat.pos_iff_ne_zero]
  intro hzero
  rw [size, hzero, Nat.cast_zero, zero_mul] at hsize
  linarith

/-- A double of at least one has all of its binary digits. -/
theorem mantissa_ge (hsize : 1 ≤ size x) : 2 ^ 52 ≤ (Binary.ofFloat x).mantissa := by
  have hcanonical := isCanonical_ofFloat x
  have hm : ((Binary.ofFloat x).mantissa : ℚ) < 2 ^ 53 := by exact_mod_cast hcanonical.mantissa_lt
  refine hcanonical.normal.resolve_right fun hleast => ?_
  have hunit : (2 : ℚ) ^ (-1074 : ℤ) ≤ 2 ^ (-53 : ℤ) := zpow_le_zpow_right₀ one_le_two (by decide)
  have hlt : size x < 2 ^ 53 * 2 ^ (-53 : ℤ) := by
    rw [size, hleast]
    exact mul_lt_mul hm hunit (by positivity) (by positivity)
  rw [show (2 : ℚ) ^ 53 * 2 ^ (-53 : ℤ) = 1 by norm_num] at hlt
  linarith

/-- The interval of a large double is narrower than the power of ten of its leading digit. -/
theorem eq_of_has_leading (hsize : 1 ≤ size x) {a b : Nat}
    (ha : (around x).Has (a * 10 ^ leading x)) (hb : (around x).Has (b * 10 ^ leading x)) :
    a = b := by
  have hnormal : (2 ^ 52 : ℚ) ≤ (Binary.ofFloat x).mantissa := by
    exact_mod_cast mantissa_ge hsize
  have hlead := (leading_bounds (mantissa_pos hsize)).2
  have ha := abs_le.1 (abs_sub_size_le ha)
  have hb := abs_le.1 (abs_sub_size_le hb)
  rw [zpow_sub₀ two_ne_zero, zpow_one] at ha hb
  rw [zpow_add_one₀ (by norm_num)] at hlead
  unfold size at *
  have hunit : (0 : ℚ) < 2 ^ (Binary.ofFloat x).exponent := by positivity
  have hten : (0 : ℚ) < 10 ^ leading x := by positivity
  have hmantissa : 2 ^ 52 * 2 ^ (Binary.ofFloat x).exponent ≤
      ((Binary.ofFloat x).mantissa : ℚ) * 2 ^ (Binary.ofFloat x).exponent := by gcongr
  generalize (10 : ℚ) ^ leading x = ten at *
  generalize (2 : ℚ) ^ (Binary.ofFloat x).exponent = unit at *
  have happart {k k' : Nat} (h : k < k') : k * ten + ten ≤ (k' : ℚ) * ten := by
    have h : (k + 1 : ℚ) ≤ k' := by exact_mod_cast h
    calc k * ten + ten = (k + 1) * ten := by ring
      _ ≤ k' * ten := by gcongr
  rcases lt_trichotomy a b with h | h | h
  · linarith [happart h]
  · exact h
  · linarith [happart h]

end

theorem digitChars_mul_pow {d : Nat} (hd : d ≠ 0) (k : Nat) :
    digitChars (d * 10 ^ k) = digitChars d ++ List.replicate k '0' := by
  unfold digitChars
  induction k with
  | zero => simp
  | succ k ih =>
    have hpos : 0 < d * 10 ^ k := by positivity
    rw [pow_succ, ← mul_assoc, Nat.toDigits_of_base_le (by decide) (by omega),
      Nat.mul_div_cancel _ (by decide), ih, Nat.mul_mod_left, List.append_assoc,
      List.replicate_succ']
    rfl

theorem positional_of_nonneg {d : Digits} {n : Nat} (hdigits : d.digits ≠ 0)
    (hexponent : 0 ≤ d.exponent) (hvalue : d.value = n) : d.positional = digitChars n := by
  obtain ⟨k, hk⟩ := Int.eq_ofNat_of_zero_le hexponent
  have hn : n = d.digits * 10 ^ k := by
    unfold Digits.value at hvalue
    rw [hk, zpow_natCast] at hvalue
    exact_mod_cast hvalue.symm
  unfold Digits.positional
  rw [if_pos hexponent, hn, digitChars_mul_pow hdigits, hk, Int.toNat_natCast]

theorem one_le_size {n : Nat} (hpos : 0 < n) (hn : n < 2 ^ 64) : 1 ≤ size (ofInteger n) := by
  rcases Nat.lt_or_ge n (2 ^ 53) with hsmall | hlarge
  · rw [size_ofInteger hsmall]
    exact_mod_cast hpos
  · by_contra hsize
    have hcanonical := isCanonical_ofFloat (ofInteger n)
    have hnear := (abs_le.1 (abs_sub_size_le (has_ofInteger (hn.trans (by decide))))).2
    have hexponent : (Binary.ofFloat (ofInteger n)).exponent ≤ 0 := by
      by_contra hexponent
      have hmantissa := hcanonical.normal.resolve_right (by omega)
      have hmantissa : (1 : ℚ) ≤ (Binary.ofFloat (ofInteger n)).mantissa := by
        exact_mod_cast (by omega : 1 ≤ (Binary.ofFloat (ofInteger n)).mantissa)
      have hpower : (1 : ℚ) ≤ 2 ^ (Binary.ofFloat (ofInteger n)).exponent :=
        one_le_zpow₀ one_le_two (by omega)
      exact hsize (one_le_mul_of_one_le_of_one_le hmantissa hpower)
    have hhalf : (2 : ℚ) ^ ((Binary.ofFloat (ofInteger n)).exponent - 1) ≤ 1 :=
      zpow_le_one_of_nonpos₀ one_le_two (by omega)
    have hlarge : (2 ^ 53 : ℚ) ≤ n := by exact_mod_cast hlarge
    linarith

theorem cast_mul_pow (c p : Nat) : ((c * 10 ^ p : Nat) : ℚ) = c * 10 ^ (p : ℤ) := by
  rw [zpow_natCast]
  push_cast
  rfl

section

variable {n k : Nat}

theorem ofInteger_mul_pow_iff (hn : n < 2 ^ 64) (c p : Nat) :
    ofInteger (c * 10 ^ p : Nat) = ofInteger n ↔
      (around (ofInteger n)).Has (c * 10 ^ (p : ℤ)) := by
  rw [← cast_mul_pow]
  exact ofInteger_eq_iff_has hn

theorem leading_nonneg (hpos : 0 < n) (hn : n < 2 ^ 64) : 0 ≤ leading (ofInteger n) := by
  have hsize := one_le_size hpos hn
  have hlt : (10 : ℚ) ^ (0 : ℤ) < 10 ^ (leading (ofInteger n) + 1) := by
    rw [zpow_zero]
    exact hsize.trans_lt (leading_bounds (mantissa_pos hsize)).2
  have := (zpow_lt_zpow_iff_right₀ (by norm_num)).1 hlt
  omega

/-- The digits that are chosen for the double of an integer end at the unit or before it. -/
theorem IsChosen.places_nonneg {places : Int} (hpos : 0 < n) (hn : n < 2 ^ 64)
    (h : IsChosen (Binary.ofFloat (ofInteger n)).mantissa (Binary.ofFloat (ofInteger n)).exponent
      places k) : 0 ≤ places := by
  by_contra hneg
  have hhas := has_ofInteger (hn.trans (by decide))
  rw [← mul_one (n : ℚ), ← zpow_zero (10 : ℚ)] at hhas
  exact h.coarsest (by omega) (leading_nonneg hpos hn) n hhas

variable {p : Nat} (hpos : 0 < n) (hn : n < 2 ^ 64)
  (h : IsChosen (Binary.ofFloat (ofInteger n)).mantissa (Binary.ofFloat (ofInteger n)).exponent p k)

include hpos hn h

theorem IsChosen.dvd {c q : Nat} (hc : ofInteger (c * 10 ^ q : Nat) = ofInteger n) :
    10 ^ q ∣ k * 10 ^ p := by
  obtain ⟨l, hl⟩ := Int.eq_ofNat_of_zero_le (leading_nonneg hpos hn)
  have hcoarsest {p' : Nat} (hlt : p < p') (hle : p' ≤ l) (c' : Nat) :
      ¬ (around (ofInteger n)).Has (c' * 10 ^ (p' : ℤ)) :=
    h.coarsest (by omega) (by show (p' : ℤ) ≤ leading (ofInteger n); omega) c'
  have hpl : (p : ℤ) ≤ leading (ofInteger n) := h.le_leadingPlace
  rcases Nat.lt_or_ge p q with hpq | hqp
  · rcases Nat.lt_or_ge l q with hlq | hql
    · obtain ⟨d, rfl⟩ : ∃ d, q = d + l := ⟨q - l, by omega⟩
      rw [pow_add, ← mul_assoc] at hc
      have hhas := (ofInteger_mul_pow_iff hn _ _).1 hc
      obtain rfl : p = l := by
        by_contra hne
        exact hcoarsest (by omega) le_rfl _ hhas
      rw [← hl] at hhas
      have hnearest := h.nearest.has
      rw [← hl] at hnearest
      rw [← eq_of_has_leading (one_le_size hpos hn) hhas hnearest, pow_add]
      exact Nat.mul_dvd_mul_right (dvd_mul_left _ _) _
    · exact absurd ((ofInteger_mul_pow_iff hn c q).1 hc) (hcoarsest hpq hql c)
  · exact Dvd.dvd.mul_left (pow_dvd_pow 10 hqp) k

/-- The chosen decimal of the double of an integer is the roundest integer with this double. -/
theorem IsChosen.isRoundest :
    ofInteger (k * 10 ^ p : Nat) = ofInteger n ∧ IsRoundest (k * 10 ^ p) := by
  have hsame : ofInteger (k * 10 ^ p : Nat) = ofInteger n :=
    (ofInteger_mul_pow_iff hn k p).2 h.nearest.has
  have hcenter := center_eq_size (ofInteger n)
  refine ⟨hsame, ⟨fun {k' q} hk' hdvd => ?_, fun {k'} hk' hzeros => ?_,
    fun {k'} hk' hzeros heq => ?_⟩⟩
  · obtain ⟨c, rfl⟩ := exists_eq_mul_left_of_dvd hdvd
    exact h.dvd hpos hn (hk'.trans hsame)
  · obtain ⟨c, rfl⟩ := exists_eq_mul_left_of_dvd (hzeros p (dvd_mul_left _ _))
    rw [hsame] at hk'
    rw [hsame, cast_mul_pow, cast_mul_pow, ← hcenter]
    exact h.nearest.le ((ofInteger_mul_pow_iff hn c p).1 hk')
  · obtain ⟨c, rfl⟩ := exists_eq_mul_left_of_dvd (hzeros p (dvd_mul_left _ _))
    rw [hsame] at hk'
    rw [hsame, cast_mul_pow, cast_mul_pow, ← hcenter] at heq
    exact Nat.mul_le_mul_right _
      (h.nearest.le_of_eq ((ofInteger_mul_pow_iff hn c p).1 hk') heq)

end

theorem natAbs_lt_of_exactInteger? {x : Float} {w : Int} (h : exactInteger? x = some w) :
    w.natAbs < 10 ^ 15 := by
  unfold exactInteger? at h
  split at h
  · split at h
    · obtain ⟨hlt, hw⟩ := Option.ite_none_right_eq_some.1 h
      exact Option.some.inj hw ▸ hlt
    · cases h
  · cases h

theorem integerText_eq_withSign (n : Int) :
    integerText n = withSign (n < 0) (digitChars n.natAbs) := by
  simp [integerText, withSign]

section

variable {n : Int} (hn : n.natAbs < 2 ^ 64)

include hn

theorem ofInteger_eq_of_size {k : Nat} (hk : size (ofInteger n) = k) :
    ofInteger k = ofInteger n.natAbs := by
  rw [ofInteger_eq_iff_has hn, ← around_ofInteger_natAbs (hn.trans (by decide)), ← hk]
  exact has_size _

/-- The text of the double of an integer that has no exact form. -/
theorem exists_plainText_of_none (hpos : 0 < (Binary.ofFloat (ofInteger n)).mantissa)
    (hinteger : exactInteger? (ofInteger n) = none) :
    ∃ k : Nat, IsRoundest k ∧ ofInteger k = ofInteger n.natAbs ∧
      plainText (ofInteger n) = withSign (n < 0) (digitChars k) := by
  have hsmall : n.natAbs < 2 ^ 100 := hn.trans (by decide)
  have hfloat := ofFloat_ofInteger_eq n hsmall
  have hfloat' := ofFloat_ofInteger_eq n.natAbs (by rwa [Int.natAbs_natCast])
  rw [Int.natAbs_natCast] at hfloat'
  have hn0 : 0 < n.natAbs := by
    rw [Nat.pos_iff_ne_zero]
    intro hn0
    rw [Int.natAbs_eq_zero.1 hn0] at hinteger
    have hzero := exactInteger?_ofInteger (show 0 < 10 ^ 15 by decide)
    exact Option.some_ne_none _ (hzero.symm.trans hinteger)
  obtain ⟨places, k, hchosen, hvalue, hexponent, hdigits⟩ :=
    exists_isChosen (isCanonical_ofFloat (ofInteger n)) hpos
  have hchosen' : IsChosen (Binary.ofFloat (ofInteger n.natAbs)).mantissa
      (Binary.ofFloat (ofInteger n.natAbs)).exponent places k := by
    rw [hfloat']
    rwa [hfloat] at hchosen
  obtain ⟨p, rfl⟩ := Int.eq_ofNat_of_zero_le (hchosen'.places_nonneg hn0 hn)
  obtain ⟨hdouble, hk⟩ := hchosen'.isRoundest hn0 hn
  refine ⟨k * 10 ^ p, hk, hdouble, ?_⟩
  rw [plainText_of_shortest (isFinite_ofInteger_of_lt hsmall) hinteger,
    positional_of_nonneg hdigits (by omega) (hvalue.trans (cast_mul_pow k p).symm), hfloat]

/-- The text of the double of an integer: the digits of the roundest integer with this double. -/
theorem exists_plainText_ofInteger :
    ∃ k : Nat, IsRoundest k ∧ ofInteger k = ofInteger n.natAbs ∧
      plainText (ofInteger n) = withSign (n < 0) (digitChars k) := by
  have hsmall : n.natAbs < 2 ^ 100 := hn.trans (by decide)
  have hround {k : Nat} (hk : k < 10 ^ 15) : IsRoundest k := isRoundest_of_lt (by omega)
  rcases sign_of_isFinite (isFinite_ofInteger_of_lt hsmall) with
    ⟨hzero, hmantissa, -⟩ | ⟨hpos, -⟩
  · have hsize : size (ofInteger n) = (0 : Nat) := by
      rw [size, hmantissa, Nat.cast_zero, zero_mul]
    refine ⟨0, hround (by decide), ofInteger_eq_of_size hn hsize, ?_⟩
    rw [plainText_of_exactInteger? (exactInteger?_of_beq_zero hzero), eq_zero_of_beq_zero hzero]
    rfl
  cases hinteger : exactInteger? (ofInteger n) with
  | some w =>
    have hw := integer?_of_exactInteger? hinteger
    refine ⟨w.natAbs, hround (natAbs_lt_of_exactInteger? hinteger),
      ofInteger_eq_of_size hn (natAbs_of_integer? hw).symm, ?_⟩
    have hnegative : w < 0 ↔ n < 0 := by
      rw [integer?_neg_iff hw hpos, ofFloat_ofInteger_eq n hsmall]
      exact decide_eq_true_iff
    rw [plainText_of_exactInteger? hinteger, integerText_eq_withSign, decide_eq_decide.2 hnegative]
  | none => exact exists_plainText_of_none hn hpos hinteger

end

/-- An integer is printed with its own digits exactly if it is the roundest one with its double. -/
theorem plainText_ofInteger_iff {n : Int} (hn : n.natAbs < 2 ^ 64) :
    plainText (ofInteger n) = integerText n ↔ IsRoundest n.natAbs := by
  obtain ⟨k, hround, hsame, htext⟩ := exists_plainText_ofInteger hn
  have hdigits : withSign (n < 0) (digitChars k) = withSign (n < 0) (digitChars n.natAbs) ↔
      k = n.natAbs := by
    refine ⟨fun h => ?_, fun h => by rw [h]⟩
    have hlist : digitChars k = digitChars n.natAbs := by
      unfold withSign at h
      rw [String.ofList_inj] at h
      split at h
      · exact List.tail_eq_of_cons_eq h
      · exact h
    rw [← digitsValue_digitChars k, hlist, digitsValue_digitChars]
  rw [htext, integerText_eq_withSign, hdigits]
  exact ⟨fun h => h ▸ hround, fun h => h.eq hround hsame⟩

end TemplateEngine.Decimal
