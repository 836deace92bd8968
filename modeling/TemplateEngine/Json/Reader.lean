import TemplateEngine.Decimal.Reader
import TemplateEngine.Json.Value

/-!
Reading JSON texts. Values may be nested in at most 127 arrays and objects. The digits of a number
beyond the first that fill 64 bits are only counted, and what they give is scaled by one power of
ten in the arithmetic of doubles.
-/

namespace TemplateEngine.Json

def skipSpace (cs : List Char) : List Char :=
  cs.dropWhile fun c => c == ' ' || c == '\n' || c == '\t' || c == '\r'

def hexDigit? (c : Char) : Option Nat :=
  if c.isDigit then some (c.toNat - '0'.toNat)
  else if 'a' ≤ c && c ≤ 'f' then some (c.toNat - 'a'.toNat + 10)
  else if 'A' ≤ c && c ≤ 'F' then some (c.toNat - 'A'.toNat + 10)
  else none

def hexValue? (a b c d : Char) : Option Nat := do
  return (((← hexDigit? a) * 16 + (← hexDigit? b)) * 16 + (← hexDigit? c)) * 16 + (← hexDigit? d)

def escape? : Char → Option Char
  | '"' => some '"'
  | '\\' => some '\\'
  | '/' => some '/'
  | 'b' => some '\x08'
  | 'f' => some '\x0C'
  | 'n' => some '\n'
  | 'r' => some '\r'
  | 't' => some '\t'
  | _ => none

def consChar (c : Char) : Option (List Char × List Char) → Option (List Char × List Char) :=
  Option.map fun (text, rest) => (c :: text, rest)

/-- Reads the inside of a string up to its closing quote. A number beyond `U+FFFF` is written as two
escapes, the first from the upper range of surrogates and the second from the lower one. -/
def stringRest : List Char → Option (List Char × List Char)
  | [] => none
  | '"' :: cs => some ([], cs)
  | '\\' :: 'u' :: a :: b :: c :: d :: cs =>
    match hexValue? a b c d with
    | none => none
    | some high =>
      if 0xDC00 ≤ high && high ≤ 0xDFFF then none
      else if 0xD800 ≤ high && high ≤ 0xDBFF then
        match cs with
        | '\\' :: 'u' :: e :: f :: g :: h :: cs =>
          match hexValue? e f g h with
          | none => none
          | some low =>
            if 0xDC00 ≤ low && low ≤ 0xDFFF then
              consChar (Char.ofNat (0x10000 + (high - 0xD800) * 0x400 + (low - 0xDC00)))
                (stringRest cs)
            else none
        | _ => none
      else consChar (Char.ofNat high) (stringRest cs)
  | '\\' :: c :: cs =>
    match escape? c with
    | none => none
    | some c => consChar c (stringRest cs)
  | c :: cs => if c.toNat < 0x20 || c == '\\' then none else consChar c (stringRest cs)

def wordLimit : Nat :=
  Decimal.power 2 64 - 1

/-- Adds digits to a number while it fits in 64 bits; gives it with the digits left over. -/
def fillWord (n : Nat) : List Char → Nat × List Char
  | [] => (n, [])
  | c :: cs =>
    let next := 10 * n + (c.toNat - '0'.toNat)
    if wordLimit < next then (n, c :: cs) else fillWord next cs

/-- Divides by `10 ^ 308` until the exponent that is left is within reach of a double. -/
def scaleTiny : Nat → Float → Nat → Float
  | 0, x, _ => x
  | fuel + 1, x, exponent =>
    if exponent ≤ 308 then x / Decimal.ofDecimal false 1 exponent
    else if x == 0 then x
    else scaleTiny fuel (x / Decimal.ofDecimal false 1 308) (exponent - 308)

/-- A significand times a power of ten. Numbers beyond the largest double are refused. -/
def scale? (significand : Nat) (exponent : Int) : Option Float :=
  let x := Decimal.ofInteger significand
  if exponent < 0 then some (scaleTiny 8 x exponent.natAbs)
  else if 308 < exponent then if significand = 0 then some x else none
  else
    let scaled := x * Decimal.ofDecimal false 1 exponent
    if scaled.isInf then none else some scaled

def exponentPart? : List Char → Option (Option Int × List Char)
  | c :: cs =>
    if c == 'e' || c == 'E' then
      let (negative, cs) := Decimal.takeSign cs
      let digits := cs.takeWhile Char.isDigit
      if digits.isEmpty then none
      else
        let size := Int.ofNat (Decimal.digitsValue 0 digits)
        some (some (if negative then -size else size), cs.dropWhile Char.isDigit)
    else some (none, c :: cs)
  | [] => some (none, [])

def fractionPart? : List Char → Option (Option (List Char) × List Char)
  | '.' :: cs =>
    let digits := cs.takeWhile Char.isDigit
    if digits.isEmpty then none else some (some digits, cs.dropWhile Char.isDigit)
  | cs => some (none, cs)

def numberValue? (negative : Bool) (whole : List Char) (fraction : Option (List Char))
    (exponent : Option Int) : Option Json :=
  let (n, surplus) := fillWord 0 whole
  if surplus.isEmpty && fraction.isNone && exponent.isNone then
    if !negative then some (int n)
    else if n = 0 || Decimal.power 2 63 < n then
      some (float (-Decimal.ofInteger n))
    else some (int (-Int.ofNat n))
  else
    let (significand, dropped) :=
      if surplus.isEmpty then fillWord n (fraction.getD []) else (n, fraction.getD [])
    let places := (fraction.getD []).length - dropped.length
    let shift := Int.ofNat surplus.length - Int.ofNat places + exponent.getD 0
    (scale? significand shift).map fun x => float (if negative then -x else x)

def number? (cs : List Char) : Option (Json × List Char) := do
  let (negative, cs) :=
    match cs with
    | '-' :: cs => (true, cs)
    | cs => (false, cs)
  let whole := cs.takeWhile Char.isDigit
  if whole.isEmpty || (whole.head? == some '0' && 1 < whole.length) then none
  else
    let (fraction, rest) ← fractionPart? (cs.dropWhile Char.isDigit)
    let (exponent, rest) ← exponentPart? rest
    let value ← numberValue? negative whole fraction exponent
    return (value, rest)

def word? (word : String) (value : Json) (cs : List Char) : Option (Json × List Char) :=
  if word.toList.isPrefixOf cs then some (value, cs.drop word.length) else none

mutual

/-- Reads a value that may hold `depth` more levels of arrays and objects. Every call takes one of
the given steps. -/
def value? : Nat → Nat → List Char → Option (Json × List Char)
  | 0, _, _ => none
  | steps + 1, depth, cs =>
    match skipSpace cs with
    | [] => none
    | '"' :: cs => (stringRest cs).map fun (text, rest) => (string (String.ofList text), rest)
    | '[' :: cs =>
      match depth with
      | 0 => none
      | depth + 1 =>
        match skipSpace cs with
        | ']' :: cs => some (array [], cs)
        | cs => (items? steps depth cs).map fun (items, rest) => (array items, rest)
    | '\x7b' :: cs =>
      match depth with
      | 0 => none
      | depth + 1 =>
        match skipSpace cs with
        | '\x7d' :: cs => some (object [], cs)
        | cs => (fields? steps depth cs).map fun (fields, rest) => (object fields, rest)
    | 'n' :: cs => word? "ull" null cs
    | 't' :: cs => word? "rue" (bool true) cs
    | 'f' :: cs => word? "alse" (bool false) cs
    | cs => number? cs

def items? : Nat → Nat → List Char → Option (List Json × List Char)
  | 0, _, _ => none
  | steps + 1, depth, cs =>
    match value? steps depth cs with
    | none => none
    | some (item, cs) =>
      match skipSpace cs with
      | ',' :: cs => (items? steps depth cs).map fun (items, rest) => (item :: items, rest)
      | ']' :: cs => some ([item], cs)
      | _ => none

def fields? : Nat → Nat → List Char → Option (List (String × Json) × List Char)
  | 0, _, _ => none
  | steps + 1, depth, cs =>
    match skipSpace cs with
    | '"' :: cs =>
      match stringRest cs with
      | none => none
      | some (name, cs) =>
        match skipSpace cs with
        | ':' :: cs =>
          match value? steps depth cs with
          | none => none
          | some (value, cs) =>
            let field := (String.ofList name, value)
            match skipSpace cs with
            | ',' :: cs =>
              (fields? steps depth cs).map fun (fields, rest) => (field :: fields, rest)
            | '\x7d' :: cs => some ([field], cs)
            | _ => none
        | _ => none
    | _ => none

end

def readWritten? (text : String) : Option Json :=
  let cs := text.toList
  match value? (2 * cs.length + 1) 127 cs with
  | some (value, rest) => if (skipSpace rest).isEmpty then some value else none
  | none => none

/-- Reads a whole text. Of several fields with one name the last is kept. -/
def read? (text : String) : Option Json :=
  (readWritten? text).map canonical

end TemplateEngine.Json
