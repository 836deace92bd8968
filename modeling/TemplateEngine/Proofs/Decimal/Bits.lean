import Mathlib
import TemplateEngine.Decimal.Binary

/-!
The words of 64 bits that stand for doubles. Main statement: every word that stands for a number is
kept by the double that is made of it.
-/

namespace TemplateEngine.Decimal

theorem power_eq (base n : Nat) : power base n = base ^ n := rfl

section

open Float.Model Float.Model.UnpackedFloat

theorem toNat_unpackMantissa (w : BitVec 64) :
    (@unpackMantissa .binary64 w).toNat = w.toNat % 2 ^ 52 := by
  simp [unpackMantissa]

theorem toNat_unpackExponent (w : BitVec 64) :
    (@unpackExponent .binary64 w).toNat = w.toNat / 2 ^ 52 % 2 ^ 11 := by
  simp [unpackExponent, Nat.shiftRight_eq_div_pow]

/-- The fraction with the leading digit of a normal double. -/
theorem toNat_append_unpackMantissa (w : BitVec 64) :
    (1#1 ++ @unpackMantissa .binary64 w).toNat = 2 ^ 52 + w.toNat % 2 ^ 52 := by
  rw [BitVec.toNat_append, ← Nat.shiftLeft_add_eq_or_of_lt (BitVec.isLt _), toNat_unpackMantissa]
  simp [Nat.shiftLeft_eq]

theorem toNat_unpackSign (w : BitVec 64) :
    (@unpackSign .binary64 w).toNat = w.toNat / 2 ^ 63 % 2 := by
  show (BitVec.cast _ (BitVec.extractLsb 63 63 w)).toNat = _
  simp [Nat.shiftRight_eq_div_pow]

/-- The bits of a double that is a number are kept. -/
theorem toBits_ofBits {n : Nat} (hsize : n < 2 ^ 64) (hnumber : n % 2 ^ 63 ≤ 2047 * 2 ^ 52) :
    (Float.ofBits (UInt64.ofNat n)).toBits.toNat = n := by
  have hw : (UInt64.ofNat n).toBitVec.toNat = n := by
    rw [UInt64.toNat_toBitVec, UInt64.toNat_ofNat_of_lt' hsize]
  generalize hword : (UInt64.ofNat n).toBitVec = w at hw
  have hvalid : Format.binary64.Valid w := by
    refine ⟨fun htop hmantissa => absurd (BitVec.eq_of_toNat_eq ?_) hmantissa⟩
    have hexponent := toNat_unpackExponent w
    rw [htop, hw] at hexponent
    have hexponent : 2047 = n / 2 ^ 52 % 2 ^ 11 := hexponent
    rw [toNat_unpackMantissa, hw]
    show n % 2 ^ 52 = 0
    omega
  show (UnpackedFloat.pack .binary64 (UnpackedFloat.unpack .binary64 _)).toNat = n
  rw [hword, pack_unpack_of_valid hvalid, hw]

end

section

variable (negative : Bool) {bits : Nat}

theorem toBits_ofSignBits (hbits : bits ≤ infinityBits) :
    (ofSignBits negative bits).toBits.toNat = if negative then 2 ^ 63 + bits else bits := by
  rw [infinityBits, power_eq] at hbits
  unfold ofSignBits
  rw [power_eq, toBits_ofBits] <;> split <;> omega

def mantissaOf (bits : Nat) : Nat :=
  if bits / 2 ^ 52 = 0 then bits % 2 ^ 52 else 2 ^ 52 + bits % 2 ^ 52

def exponentOf (bits : Nat) : Int :=
  max (bits / 2 ^ 52 : Nat) 1 - 1075

theorem ofFloat_ofSignBits (hbits : bits ≤ infinityBits) :
    Binary.ofFloat (ofSignBits negative bits) = ⟨negative, mantissaOf bits, exponentOf bits⟩ := by
  have hword := toBits_ofSignBits negative hbits
  rw [infinityBits, power_eq] at hbits
  have hsign : decide (2 ^ 63 ≤ if negative then 2 ^ 63 + bits else bits) = negative := by
    cases negative with
    | false => exact decide_eq_false (show ¬ 2 ^ 63 ≤ bits by omega)
    | true => exact decide_eq_true (show 2 ^ 63 ≤ 2 ^ 63 + bits by omega)
  have hfield : (if negative then 2 ^ 63 + bits else bits) / 2 ^ 52 % 2 ^ 11 = bits / 2 ^ 52 := by
    split <;> omega
  have hfraction : (if negative then 2 ^ 63 + bits else bits) % 2 ^ 52 = bits % 2 ^ 52 := by
    split <;> omega
  unfold Binary.ofFloat
  simp only [hword, power_eq, hsign, hfield, hfraction]
  rfl

end

end TemplateEngine.Decimal
