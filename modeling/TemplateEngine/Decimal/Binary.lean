/-!
Doubles as exact numbers: what a finite double stands for, and the double nearest to a given ratio.
-/

namespace TemplateEngine.Decimal

def power (base n : Nat) : Nat :=
  Nat.pow base n

@[simp] theorem power_zero (base : Nat) : power base 0 = 1 := rfl

theorem power_pos {base : Nat} (h : 0 < base) (n : Nat) : 0 < power base n :=
  Nat.pow_pos h

structure Binary where
  negative : Bool
  mantissa : Nat
  exponent : Int
  deriving Repr, DecidableEq

def Binary.ofFloat (x : Float) : Binary :=
  let bits := x.toBits.toNat
  let field := bits / power 2 52 % power 2 11
  let fraction := bits % power 2 52
  { negative := power 2 63 ≤ bits
    mantissa := if field = 0 then fraction else power 2 52 + fraction
    exponent := Int.ofNat (max field 1) - 1075 }

def Binary.integer? (x : Binary) : Option Int :=
  let size? : Option Nat :=
    if 0 ≤ x.exponent then some (x.mantissa * power 2 x.exponent.toNat)
    else
      let unit := power 2 (-x.exponent).toNat
      if x.mantissa % unit = 0 then some (x.mantissa / unit) else none
  size?.map fun size => if x.negative then -Int.ofNat size else Int.ofNat size

/-- The integer nearest to a ratio; of two that are equally near, the even one. -/
def roundHalfEven (num den : Nat) : Nat :=
  let quotient := num / den
  let remainder := num % den
  if 2 * remainder < den || (2 * remainder == den && quotient % 2 == 0) then quotient
  else quotient + 1

/-- Numerator and denominator of a ratio divided by `base ^ places`. -/
def scaleDown (base num den : Nat) (places : Int) : Nat × Nat :=
  if 0 ≤ places then (num, den * power base places.toNat)
  else (num * power base (-places).toNat, den)

/-- The bits of infinity. They follow those of the largest finite double. -/
def infinityBits : Nat :=
  2047 * power 2 52

/-- The bits of the double nearest to a ratio. The last place is the power of two that leaves a
mantissa of 53 binary digits, or the least one there is. -/
def nearestBits (num den : Nat) : Nat :=
  if num = 0 then 0
  else
    let guess : Int := max (Int.ofNat num.log2 - Int.ofNat den.log2 - 52) (-1074)
    let scaled := scaleDown 2 num den guess
    let place := if scaled.1 / scaled.2 < power 2 52 && -1074 < guess then guess - 1 else guess
    let scaled := scaleDown 2 num den place
    min ((place + 1074).toNat * power 2 52 + roundHalfEven scaled.1 scaled.2) infinityBits

def ofSignBits (negative : Bool) (bits : Nat) : Float :=
  Float.ofBits (UInt64.ofNat (if negative then power 2 63 + bits else bits))

def ofInteger (n : Int) : Float :=
  ofSignBits (n < 0) (nearestBits n.natAbs 1)

/-- The double nearest to `digits · 10 ^ exponent`. Exponents that can only give infinity or zero
are settled without computing the power. -/
def ofDecimal (negative : Bool) (digits : Nat) (exponent : Int) : Float :=
  ofSignBits negative <|
    if digits = 0 then 0
    else if 400 < exponent then infinityBits
    else if exponent < -(400 + Int.ofNat digits.log2) then 0
    else
      let scaled := scaleDown 10 digits 1 (-exponent)
      nearestBits scaled.1 scaled.2

/-- The part of `x` that is left when `y` is taken from it as often as it fits, with the sign of
`x`. It is exact, since both are multiples of one power of two. -/
def remainder (x y : Float) : Float :=
  if x.isNaN || y.isNaN || x.isInf || y == 0 then 0 / 0
  else if y.isInf then x
  else
    let a := Binary.ofFloat x
    let b := Binary.ofFloat y
    let place := min a.exponent b.exponent
    let left := a.mantissa * power 2 (a.exponent - place).toNat
    let right := b.mantissa * power 2 (b.exponent - place).toNat
    let scaled := scaleDown 2 (left % right) 1 (-place)
    ofSignBits a.negative (nearestBits scaled.1 scaled.2)

end TemplateEngine.Decimal
