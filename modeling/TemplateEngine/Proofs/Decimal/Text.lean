import TemplateEngine.Decimal.Layout
import TemplateEngine.Proofs.Decimal.Natural

/-!
The texts of doubles. Main statements: equal doubles are the same or both zero, a double that is
equal to a natural number below `10 ^ 15` is written as the digits of that number, and a text begins
with a minus exactly if the double is below zero.
-/

namespace TemplateEngine.Decimal

/-- A double is known by the number it stands for and by its sign. -/
theorem ofFloat_injective {x y : Float} (h : Binary.ofFloat x = Binary.ofFloat y) : x = y := by
  have hx : x.toBits.toNat < 2 ^ 64 := x.toBits.toNat_lt
  have hy : y.toBits.toNat < 2 ^ 64 := y.toBits.toNat_lt
  have hbits : x.toBits.toNat = y.toBits.toNat := by
    simp only [Binary.ofFloat, power_eq, Binary.mk.injEq, Int.ofNat_eq_natCast] at h
    obtain ⟨hsign, hmantissa, hexponent⟩ := h
    have hsign := decide_eq_decide.1 hsign
    generalize x.toBits.toNat = a at hx hsign hmantissa hexponent
    generalize y.toBits.toNat = b at hy hsign hmantissa hexponent
    by_cases ha : a / 2 ^ 52 % 2 ^ 11 = 0 <;> by_cases hb : b / 2 ^ 52 % 2 ^ 11 = 0 <;>
      simp only [ha, hb, if_true, if_false] at hmantissa hexponent <;> omega
  exact Float.toBits_inj.1 (UInt64.toNat_inj.1 hbits)

section

open Float.Model Float.Model.UnpackedFloat

variable {x y : Float}

theorem sign_ofBitVec (w : BitVec 64) :
    (Sign.ofBitVec (@unpackSign .binary64 w) == .negative) = decide (2 ^ 63 ≤ w.toNat) := by
  have hw := w.isLt
  have hsign := toNat_unpackSign w
  by_cases h : 2 ^ 63 ≤ w.toNat
  · have : @unpackSign .binary64 w = 1#1 := BitVec.eq_of_toNat_eq (by rw [hsign]; simp; omega)
    rw [this, decide_eq_true h]
    rfl
  · have : @unpackSign .binary64 w = 0#1 := BitVec.eq_of_toNat_eq (by rw [hsign]; simp; omega)
    rw [this, decide_eq_false h]
    rfl

def unpackedValue? : Float.Model.UnpackedFloat → Option Binary
  | .zero sign => some ⟨sign == .negative, 0, -1074⟩
  | .finite sign mantissa exponent _ => some ⟨sign == .negative, mantissa, exponent⟩
  | .infinity _ | .notANumber => none

@[simp] theorem unpackedValue?_zero (sign : UnpackedFloat.Sign) :
    unpackedValue? (.zero sign) = some ⟨sign == .negative, 0, -1074⟩ :=
  rfl

@[simp] theorem unpackedValue?_finite (sign : UnpackedFloat.Sign) (mantissa : Nat) (exponent : Int)
    (hmantissa : 0 < mantissa) :
    unpackedValue? (.finite sign mantissa exponent hmantissa) =
      some ⟨sign == .negative, mantissa, exponent⟩ :=
  rfl

theorem ofFloat_eq_of_unpackedValue? {b : Binary}
    (h : unpackedValue? x.toModel.unpack = some b) : Binary.ofFloat x = b := by
  have hmantissa := toNat_unpackMantissa x.toModel.toBits.toBitVec
  have hexponent := toNat_unpackExponent x.toModel.toBits.toBitVec
  have hsign := sign_ofBitVec x.toModel.toBits.toBitVec
  have hword : x.toBits.toNat = x.toModel.toBits.toBitVec.toNat := rfl
  have hbias : Format.binary64.exponentBias + Format.binary64.mantissaBitsWithoutImplicit = 1075 :=
    rfl
  unfold Float.Model.unpack UnpackedFloat.unpack at h
  simp only [Binary.ofFloat, hword, power_eq]
  generalize x.toModel.toBits.toBitVec = w at *
  by_cases htop : @unpackExponent .binary64 w = -1#_
  · rw [if_pos htop] at h
    split at h <;> exact (Option.some_ne_none b h.symm).elim
  rw [if_neg htop] at h
  by_cases hfield : @unpackExponent .binary64 w = 0#_
  · have hzero : w.toNat / 2 ^ 52 % 2 ^ 11 = 0 := by
      rw [← hexponent, hfield]
      rfl
    rw [if_pos hfield] at h
    by_cases hfraction : @unpackMantissa .binary64 w = 0#_
    · have hrest : w.toNat % 2 ^ 52 = 0 := by
        rw [← hmantissa, hfraction]
        rfl
      rw [dif_pos hfraction, unpackedValue?_zero, hsign] at h
      rw [hzero, hrest, if_pos rfl]
      exact Option.some.inj h
    · rw [dif_neg hfraction, unpackedValue?_finite, hsign, hmantissa, hexponent] at h
      rw [hzero, if_pos rfl]
      rw [hzero] at h
      exact Option.some.inj h
  · have hzero : w.toNat / 2 ^ 52 % 2 ^ 11 ≠ 0 := by
      intro hzero
      exact hfield (BitVec.eq_of_toNat_eq (hexponent.trans hzero))
    rw [if_neg hfield, unpackedValue?_finite, hsign, toNat_append_unpackMantissa, hexponent] at h
    rw [if_neg hzero, Nat.max_eq_left (Nat.one_le_iff_ne_zero.2 hzero)]
    exact Option.some.inj h

/-- A double of which the exponent is not the greatest one is finite. -/
theorem isFinite_of_exponent (h : (Binary.ofFloat x).exponent < 972) : x.isFinite = true := by
  have hexponent := toNat_unpackExponent x.toModel.toBits.toBitVec
  have hword : x.toBits.toNat = x.toModel.toBits.toBitVec.toNat := rfl
  have htop : @unpackExponent .binary64 x.toModel.toBits.toBitVec ≠ -1#_ := by
    intro htop
    have hfield : x.toBits.toNat / 2 ^ 52 % 2 ^ 11 = 2047 := by
      rw [hword, ← hexponent, htop]
      rfl
    simp only [Binary.ofFloat, power_eq, hfield, Int.ofNat_eq_natCast] at h
    omega
  show x.toModel.unpack.isFinite = true
  unfold Float.Model.unpack UnpackedFloat.unpack
  generalize x.toModel.toBits.toBitVec = w at *
  rw [if_neg htop]
  by_cases hfield : @unpackExponent .binary64 w = 0#_
  · rw [if_pos hfield]
    by_cases hfraction : @unpackMantissa .binary64 w = 0#_
    · rw [dif_pos hfraction]
      rfl
    · rw [dif_neg hfraction]
      rfl
  · rw [if_neg hfield]
    rfl

/-- The bits of infinity follow those of the finite doubles. -/
theorem isFinite_ofSignBits (negative : Bool) {bits : Nat} (hbits : bits < infinityBits) :
    (ofSignBits negative bits).isFinite = true := by
  apply isFinite_of_exponent
  rw [ofFloat_ofSignBits negative hbits.le]
  rw [infinityBits, power_eq] at hbits
  show exponentOf bits < 972
  unfold exponentOf
  omega

/-- The greatest exponent is that of infinity and of what is no number. -/
theorem exponent_of_isFinite (h : x.isFinite = true) : (Binary.ofFloat x).exponent < 972 := by
  by_contra hlarge
  have hexponent := toNat_unpackExponent x.toModel.toBits.toBitVec
  have hword : x.toBits.toNat = x.toModel.toBits.toBitVec.toNat := rfl
  have htop : @unpackExponent .binary64 x.toModel.toBits.toBitVec = -1#_ := by
    apply BitVec.eq_of_toNat_eq
    rw [hexponent, ← hword]
    simp only [Binary.ofFloat, power_eq, Int.ofNat_eq_natCast] at hlarge
    show _ = 2047
    omega
  have hfinite : x.toModel.unpack.isFinite = true := h
  unfold Float.Model.unpack UnpackedFloat.unpack at hfinite
  rw [if_pos htop] at hfinite
  split at hfinite <;> cases hfinite

theorem isFinite_iff_unpackedValue? : x.isFinite = (unpackedValue? x.toModel.unpack).isSome := by
  show x.toModel.unpack.isFinite = _
  cases x.toModel.unpack <;> rfl

/-- Equal doubles are the same or both zero. -/
theorem eq_or_zero_of_beq (h : (x == y) = true) : x = y ∨ (x == 0) = true ∧ (y == 0) = true := by
  obtain ⟨-, -, rfl | ⟨rfl, rfl⟩ | ⟨rfl, rfl⟩⟩ := Float.beq_iff_ne_nan_and_eq.1 h
  · exact .inl rfl
  · exact .inr ⟨BEq.trans h (BEq.symm h), BEq.symm h⟩
  · exact .inr ⟨h, BEq.trans (BEq.symm h) h⟩

theorem unpack_zero : (0 : Float).toModel.unpack = .zero .positive := rfl

/-- A double is equal to zero if it is unpacked to a zero, of any sign. -/
theorem beq_zero_iff : (x == 0) = true ↔ ∃ s, x.toModel.unpack = .zero s := by
  constructor
  · intro h
    obtain ⟨-, -, rfl | ⟨rfl, -⟩ | ⟨rfl, -⟩⟩ := Float.beq_iff_ne_nan_and_eq.1 h
    · exact ⟨_, rfl⟩
    · exact ⟨_, rfl⟩
    · exact ⟨_, rfl⟩
  · rintro ⟨s, h⟩
    show (x.toModel.unpack.compare (0 : Float).toModel.unpack == some .eq) = true
    rw [h, unpack_zero]
    rfl

end

/-- A double is equal to a natural number below `10 ^ 15`. -/
def IsNatural (x : Float) (n : Nat) : Prop :=
  n < 10 ^ 15 ∧ (x == ofInteger n) = true

def unsignZero (x : Float) : Float :=
  if x == 0 then 0 else x

theorem isFinite_ofInteger {n : Nat} (hbound : n < 2 ^ 53) :
    (ofInteger n).isFinite = true := by
  by_cases hn : n = 0
  · subst hn
    rfl
  · have hlog := log2_le_of_lt hbound
    apply isFinite_of_exponent
    rw [ofFloat_ofInteger hn hbound]
    show (n.log2 : Int) - 52 < 972
    omega

theorem exactInteger?_ofInteger {n : Nat} (hbound : n < 10 ^ 15) :
    exactInteger? (ofInteger n) = some n := by
  have hexact : n < 2 ^ 53 := Nat.lt_of_lt_of_le hbound (by decide)
  unfold exactInteger?
  rw [if_pos (isFinite_ofInteger hexact), integer?_ofInteger hexact]
  exact if_pos hbound

theorem exactInteger?_of_beq_zero {x : Float} (h : (x == 0) = true) :
    exactInteger? x = some 0 := by
  obtain ⟨s, h⟩ := beq_zero_iff.1 h
  have hfinite : x.isFinite = true := by
    rw [isFinite_iff_unpackedValue?, h]
    rfl
  have hvalue := ofFloat_eq_of_unpackedValue? (x := x) (by rw [h]; rfl)
  unfold exactInteger?
  rw [if_pos hfinite, hvalue, integer?_zero]
  rfl

/-- The text of a double that is equal to a natural number. -/
theorem exactInteger?_of_isNatural {x : Float} {n : Nat} (h : IsNatural x n) :
    exactInteger? x = some n := by
  have hn := exactInteger?_ofInteger h.1
  rcases eq_or_zero_of_beq h.2 with rfl | ⟨hx, hzero⟩
  · exact hn
  · rw [exactInteger?_of_beq_zero hx, ← exactInteger?_of_beq_zero hzero, hn]

theorem plainText_of_isNatural {x : Float} {n : Nat} (h : IsNatural x n) :
    plainText x = String.ofList (Nat.toDigits 10 n) := by
  unfold plainText
  rw [exactInteger?_of_isNatural h]
  show integerText n = _
  unfold integerText
  rw [if_neg (by omega)]
  rfl

/-- A double is known by the natural number that it is equal to, but for the sign of zero. -/
theorem unsignZero_of_isNatural {x : Float} {n : Nat} (h : IsNatural x n) :
    unsignZero x = ofInteger n := by
  have hzero : (x == 0) = true → n = 0 := by
    intro hx
    have := (exactInteger?_of_beq_zero hx).symm.trans (exactInteger?_of_isNatural h)
    simpa using this.symm
  unfold unsignZero
  split
  · next hx =>
    rw [hzero hx]
    rfl
  · next hx =>
    rcases eq_or_zero_of_beq h.2 with rfl | ⟨hx', -⟩
    · rfl
    · exact absurd hx' hx

section

open Float.Model Float.Model.UnpackedFloat

variable {x y : Float}

theorem lt_iff_unpack : x < y ↔ x.toModel.unpack.lt y.toModel.unpack = true := by
  show Float.lt x y = true ↔ _
  unfold Float.lt
  rw [decide_eq_true_iff]
  rfl

def isBelowZero : Float.Model.UnpackedFloat → Bool
  | .infinity sign | .finite sign _ _ _ => sign == .negative
  | .zero _ | .notANumber => false

theorem lt_zero_iff : x < 0 ↔ isBelowZero x.toModel.unpack = true := by
  rw [lt_iff_unpack, unpack_zero]
  cases x.toModel.unpack with
  | infinity sign | zero sign | finite sign _ _ _ => cases sign <;> exact Iff.rfl
  | notANumber => exact Iff.rfl

end

/-- A text begins with a minus exactly if it is signed, and with a letter or digit otherwise. -/
def BeginsSigned (signed : Prop) (text : String) : Prop :=
  ∃ c cs, text.toList = c :: cs ∧ (signed ∧ c = '-' ∨ ¬ signed ∧ c.isAlphanum = true)

theorem beginsSigned_ofList {signed : Prop} [Decidable signed] {cs : List Char}
    (h : ∃ c more, cs = c :: more ∧ c.isDigit = true) :
    BeginsSigned signed (String.ofList (if signed then '-' :: cs else cs)) := by
  obtain ⟨c, more, rfl, hc⟩ := h
  by_cases hsigned : signed
  · exact ⟨'-', c :: more, by simp [hsigned], .inl ⟨hsigned, rfl⟩⟩
  · exact ⟨c, more, by simp [hsigned], .inr ⟨hsigned, by simp [Char.isAlphanum, hc]⟩⟩

theorem exists_cons_digitChars (n : Nat) :
    ∃ c cs, digitChars n = c :: cs ∧ c.isDigit = true := by
  obtain ⟨c, cs, hdigits, hall⟩ := toDigits_eq_cons n
  exact ⟨c, cs, hdigits, hall c (by simp)⟩

theorem exists_cons_positional (d : Digits) :
    ∃ c cs, d.positional = c :: cs ∧ c.isDigit = true := by
  obtain ⟨c, cs, hdigits, hc⟩ := exists_cons_digitChars d.digits
  unfold Digits.positional
  simp only [hdigits]
  split
  · exact ⟨c, _, rfl, hc⟩
  · split
    · next hpoint =>
      obtain ⟨places, hplaces⟩ : ∃ places : Nat,
          (d.exponent + Int.ofNat (c :: cs).length).toNat = places + 1 :=
        ⟨(d.exponent + Int.ofNat (c :: cs).length).toNat - 1, by omega⟩
      rw [hplaces]
      exact ⟨c, _, rfl, hc⟩
    · exact ⟨'0', _, rfl, by decide⟩

theorem beginsSigned_integerText (n : Int) : BeginsSigned (n < 0) (integerText n) :=
  beginsSigned_ofList (exists_cons_digitChars n.natAbs)

/-- An integer that a double stands for has the sign of the double unless it is zero. -/
theorem integer?_neg_iff {b : Binary} {n : Int} (h : b.integer? = some n) (hpos : 0 < b.mantissa) :
    n < 0 ↔ b.negative = true := by
  have hpower (k : Nat) : 0 < power 2 k := by
    rw [power_eq]
    exact Nat.two_pow_pos k
  obtain ⟨size, hsize, rfl⟩ := Option.map_eq_some_iff.1 h
  have hsize : 0 < size := by
    split at hsize
    · obtain rfl := Option.some.inj hsize
      exact Nat.mul_pos hpos (hpower _)
    · simp only [Option.ite_none_right_eq_some, Option.some.injEq] at hsize
      obtain ⟨hrest, rfl⟩ := hsize
      exact Nat.div_pos (Nat.le_of_dvd hpos (Nat.dvd_of_mod_eq_zero hrest)) (hpower _)
  cases b.negative with
  | false => simp
  | true => simpa using hsize

theorem BeginsSigned.congr {signed signed' : Prop} {text : String} (h : BeginsSigned signed text)
    (hsigned : signed ↔ signed') : BeginsSigned signed' text :=
  propext hsigned ▸ h

theorem integer?_of_exactInteger? {x : Float} {n : Int} (h : exactInteger? x = some n) :
    (Binary.ofFloat x).integer? = some n := by
  unfold exactInteger? at h
  split at h
  · split at h
    · next hinteger =>
      rw [hinteger]
      exact (Option.ite_none_right_eq_some.1 h).2
    · cases h
  · cases h

theorem exactInteger?_of_not_isFinite {x : Float} (h : x.isFinite = false) :
    exactInteger? x = none := by
  unfold exactInteger?
  rw [h]
  rfl

/-- The text of a double begins with a minus exactly if the double is below zero. -/
theorem beginsSigned_plainText (x : Float) : BeginsSigned (x < 0) (plainText x) := by
  have hnan : x.isNaN = x.toModel.unpack.isNaN := rfl
  have hinf : x.isInf = x.toModel.unpack.isInf := rfl
  have hfinite := @isFinite_iff_unpackedValue? x
  have hsign := @lt_zero_iff x
  cases hx : x.toModel.unpack with
  | zero sign =>
    have htext : plainText x = integerText 0 := by
      unfold plainText
      rw [exactInteger?_of_beq_zero (beq_zero_iff.2 ⟨sign, hx⟩)]
    rw [htext]
    apply (beginsSigned_integerText 0).congr
    rw [hsign, hx]
    exact iff_of_false (by decide) Bool.false_ne_true
  | notANumber =>
    rw [hx] at hnan hfinite hsign
    have hpos : ¬ x < 0 := by
      rw [hsign]
      exact Bool.false_ne_true
    have htext : plainText x = "NaN" := by
      unfold plainText
      rw [exactInteger?_of_not_isFinite hfinite, hnan]
      rfl
    exact ⟨'N', ['a', 'N'], by rw [htext]; rfl, .inr ⟨hpos, by decide⟩⟩
  | infinity sign =>
    rw [hx] at hnan hinf hfinite
    have htext : plainText x = if x < 0 then "-inf" else "inf" := by
      unfold plainText
      rw [exactInteger?_of_not_isFinite hfinite, hnan, hinf]
      rfl
    by_cases hpos : x < 0
    · exact ⟨'-', _, by rw [htext, if_pos hpos]; rfl, .inl ⟨hpos, rfl⟩⟩
    · exact ⟨'i', _, by rw [htext, if_neg hpos]; rfl, .inr ⟨hpos, by decide⟩⟩
  | finite sign mantissa exponent hpos =>
    have hvalue := ofFloat_eq_of_unpackedValue? (x := x) (by rw [hx]; rfl)
    have hnegative : (Binary.ofFloat x).negative = true ↔ x < 0 := by
      rw [hsign, hvalue, hx]
      rfl
    rw [hx] at hnan hinf
    unfold plainText
    split
    · next n hn =>
      apply (beginsSigned_integerText n).congr
      rw [← hnegative]
      exact integer?_neg_iff (integer?_of_exactInteger? hn) (by rw [hvalue]; exact hpos)
    · rw [hnan, hinf]
      exact (beginsSigned_ofList (exists_cons_positional _)).congr hnegative

end TemplateEngine.Decimal
