import TemplateEngine.Decimal.Binary

/-!
The shortest decimal of a double: the fewest digits that read back as the same double, and among
those the nearest to it.
-/

namespace TemplateEngine.Decimal

structure Digits where
  digits : Nat
  exponent : Int
  deriving Repr, DecidableEq

inductive Tie where
  | up
  | even
  deriving Repr, DecidableEq

/-- The exact ratios `low / den` and `high / den` between which all numbers round to a double that
stands for `value / den`; the ends belong to it when `closed`. -/
structure Interval where
  low : Nat
  value : Nat
  high : Nat
  den : Nat
  closed : Bool

/-- The numbers that round to `mantissa · 2 ^ exponent`. They reach half way to the neighbours, and
the lower neighbour of a power of two is nearer by half. -/
def Interval.around (mantissa : Nat) (exponent : Int) : Interval :=
  let below := if mantissa = power 2 52 && -1074 < exponent then 1 else 2
  let scaled := scaleDown 2 1 1 (2 - exponent)
  { low := (4 * mantissa - below) * scaled.1
    value := 4 * mantissa * scaled.1
    high := (4 * mantissa + 2) * scaled.1
    den := scaled.2
    closed := mantissa % 2 == 0 }

def Interval.holds (i : Interval) (digits : Nat) (exponent : Int) : Bool :=
  let point := scaleDown 10 (digits * i.den) 1 (-exponent)
  if i.closed then i.low * point.2 ≤ point.1 && point.1 ≤ i.high * point.2
  else i.low * point.2 < point.1 && point.1 < i.high * point.2

def digitCount (n : Nat) : Nat :=
  (Nat.toDigits 10 n).length

def leadingExponent (num den : Nat) : Int :=
  if den ≤ num then Int.ofNat (digitCount (num / den)) - 1
  else -Int.ofNat (digitCount ((den - 1) / num))

/-- The decimal on the grid `10 ^ exponent` that lies in the interval, if there is one. Only the two
neighbours of the value can be the nearest; the nearer one is taken. -/
def Interval.onGrid? (i : Interval) (tie : Tie) (exponent : Int) : Option Digits :=
  let scaled := scaleDown 10 i.value i.den exponent
  let lower := scaled.1 / scaled.2
  let rest := 2 * (scaled.1 % scaled.2)
  let lowerIsNearer :=
    rest < scaled.2 || (rest == scaled.2 && tie == .even && lower % 2 == 0)
  match lower != 0 && i.holds lower exponent, i.holds (lower + 1) exponent with
  | true, true => some ⟨if lowerIsNearer then lower else lower + 1, exponent⟩
  | true, false => some ⟨lower, exponent⟩
  | false, true => some ⟨lower + 1, exponent⟩
  | false, false => none

def Digits.trim : Nat → Digits → Digits
  | 0, d => d
  | fuel + 1, d =>
    if d.digits != 0 && d.digits % 10 == 0 then trim fuel ⟨d.digits / 10, d.exponent + 1⟩ else d

/-- The shortest decimal of a positive finite double. Seventeen digits always suffice. -/
def shortest (tie : Tie) (mantissa : Nat) (exponent : Int) : Digits :=
  let i := Interval.around mantissa exponent
  let leading := leadingExponent i.value i.den
  let found := (List.range 17).findSome? fun n => i.onGrid? tie (leading - Int.ofNat n)
  (found.getD ⟨0, 0⟩).trim 18

end TemplateEngine.Decimal
