import TemplateEngine.Decimal.Binary

/-!
Reading a decimal text as the double nearest to it. The text is a sign, digits with a point among or
around them, and an exponent, of which only one digit is required; or one of the words for infinity
and for a value that is no number.
-/

namespace TemplateEngine.Decimal

/-- The value of decimal digits that follow the number `start`. -/
def digitsValue (start : Nat) (digits : List Char) : Nat :=
  digits.foldl (fun n c => 10 * n + (c.toNat - '0'.toNat)) start

/-- Takes an optional sign from the front; the first part says whether it is a minus. -/
def takeSign : List Char → Bool × List Char
  | '-' :: cs => (true, cs)
  | '+' :: cs => (false, cs)
  | cs => (false, cs)

/-- Reads `e` or `E` with a signed number behind it, or nothing, up to the end of the text. -/
def exponent? : List Char → Option Int
  | [] => some 0
  | c :: cs =>
    let (negative, digits) := takeSign cs
    if (c == 'e' || c == 'E') && !digits.isEmpty && digits.all Char.isDigit then
      let size := Int.ofNat (digitsValue 0 digits)
      some (if negative then -size else size)
    else none

def unsigned? (negative : Bool) (cs : List Char) : Option Float :=
  let whole := cs.takeWhile Char.isDigit
  let rest := cs.dropWhile Char.isDigit
  let (fraction, rest) :=
    match rest with
    | '.' :: after => (after.takeWhile Char.isDigit, after.dropWhile Char.isDigit)
    | _ => ([], rest)
  if whole.isEmpty && fraction.isEmpty then none
  else
    (exponent? rest).map fun exponent =>
      ofDecimal negative (digitsValue (digitsValue 0 whole) fraction)
        (exponent - Int.ofNat fraction.length)

def read? (cs : List Char) : Option Float :=
  let (negative, rest) := takeSign cs
  let word := String.ofList (rest.map Char.toLower)
  if word == "inf" || word == "infinity" then some (ofSignBits negative infinityBits)
  else if word == "nan" then some (0 / 0)
  else unsigned? negative rest

end TemplateEngine.Decimal
