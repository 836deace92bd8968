import TemplateEngine.Decimal.Shortest

/-!
How decimals are written out: the positional form, the form with an exponent, and the bounds between
which a format prefers the positional one.
-/

namespace TemplateEngine.Decimal

def digitChars (n : Nat) : List Char :=
  Nat.toDigits 10 n

def Digits.leading (d : Digits) : Int :=
  d.exponent + Int.ofNat (digitCount d.digits) - 1

/-- The positional form: all places down to the last digit, and at least the unit. -/
def Digits.positional (d : Digits) : List Char :=
  let digits := digitChars d.digits
  let point := d.exponent + Int.ofNat digits.length
  if 0 ≤ d.exponent then digits ++ List.replicate d.exponent.toNat '0'
  else if 0 < point then digits.take point.toNat ++ '.' :: digits.drop point.toNat
  else '0' :: '.' :: List.replicate (-point).toNat '0' ++ digits

def Digits.scientific (d : Digits) : List Char :=
  let mantissa :=
    match digitChars d.digits with
    | first :: second :: rest => first :: '.' :: second :: rest
    | digits => digits
  let sign := if d.leading < 0 then '-' else '+'
  mantissa ++ 'e' :: sign :: digitChars d.leading.natAbs

/-- The decimal digits of an integer, with its sign. -/
def integerText (n : Int) : String :=
  String.ofList (if n < 0 then '-' :: digitChars n.natAbs else digitChars n.natAbs)

def withSign (negative : Bool) (text : List Char) : String :=
  String.ofList (if negative then '-' :: text else text)

/-- The integer that a double stands for when its size is below `10 ^ 15`. -/
def exactInteger? (x : Float) : Option Int :=
  if x.isFinite then
    match (Binary.ofFloat x).integer? with
    | some n => if n.natAbs < power 10 15 then some n else none
    | none => none
  else none

/-- The text of a number in a page: integers below `10 ^ 15` without a point, all others with the
fewest digits that read back, in positional form whatever their size. -/
def plainText (x : Float) : String :=
  match exactInteger? x with
  | some n => integerText n
  | none =>
    if x.isNaN then "NaN"
    else if x.isInf then if x < 0 then "-inf" else "inf"
    else
      let b := Binary.ofFloat x
      withSign b.negative (shortest .up b.mantissa b.exponent).positional

/-- The text of a finite double in a JSON document: positional, with at least one digit after the
point, when the leading digit is between the fifth place after the point and the sixteenth before
it; with an exponent otherwise. -/
def jsonText (x : Float) : String :=
  let b := Binary.ofFloat x
  withSign b.negative <|
    if b.mantissa = 0 then ['0', '.', '0']
    else
      let d := shortest .even b.mantissa b.exponent
      if d.leading < -5 || 15 < d.leading then d.scientific
      else if 0 ≤ d.exponent then d.positional ++ ['.', '0']
      else d.positional

end TemplateEngine.Decimal
