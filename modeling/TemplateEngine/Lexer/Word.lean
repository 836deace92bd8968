import TemplateEngine.Text.Blank

/-!
The parts of expressions that every lexer reads alike: names, numbers and string literals.
-/

namespace TemplateEngine.Lexer

/-- Names are made of letters, digits and underscores of ASCII, and of all characters beyond it. -/
def isNameStart (c : Char) : Bool :=
  c.isAlpha || c == '_' || 0x7F ≤ c.toNat

def isNameChar (c : Char) : Bool :=
  isNameStart c || c.isDigit

/-- The length of the name at the front of a text, zero if there is none. -/
def nameLength : List Char → Nat
  | [] => 0
  | c :: cs => if isNameStart c then 1 + (cs.takeWhile isNameChar).length else 0

def digitsLength (cs : List Char) : Nat :=
  (cs.takeWhile Char.isDigit).length

/-- The length of a point with digits behind it, zero if they are not at the front of the text. -/
def fractionLength : List Char → Nat
  | '.' :: cs => if digitsLength cs = 0 then 0 else 1 + digitsLength cs
  | _ => 0

/-- The length of an exponent with its digits, zero if it is not at the front of the text. -/
def exponentLength : List Char → Nat
  | [] => 0
  | c :: cs =>
    if c == 'e' || c == 'E' then
      let sign :=
        match cs with
        | '+' :: _ => 1
        | '-' :: _ => 1
        | _ => 0
      let digits := digitsLength (cs.drop sign)
      if digits = 0 then 0 else 1 + sign + digits
    else 0

/-- The length of the number at the front of a text, zero if there is none. -/
def numberLength (cs : List Char) : Nat :=
  let whole := digitsLength cs
  if whole = 0 then 0
  else
    let fraction := fractionLength (cs.drop whole)
    whole + fraction + exponentLength (cs.drop (whole + fraction))

/-- The inside of a string up to the quote that closes it. A backslash protects the character behind
it; a character that is `refused` must be protected. -/
def literalBody? (quote : Char) (refused : Char → Bool) : List Char → Option (List Char)
  | [] => none
  | [c] => if c == quote then some [] else none
  | c :: d :: cs =>
    if c == quote then some []
    else if c == '\\' then (literalBody? quote refused cs).map fun body => c :: d :: body
    else if refused c then none
    else (literalBody? quote refused (d :: cs)).map (c :: ·)

/-- The inside of the string literal at the front of a text. Between double quotes a number sign may
begin an interpolation, so it must be protected there. -/
def stringLiteral? : List Char → Option (List Char)
  | '"' :: cs => literalBody? '"' (· == '#') cs
  | '\'' :: cs => literalBody? '\'' (fun _ => false) cs
  | _ => none

/-- The character that is written as a backslash with `c` behind it. -/
def unescapeChar : Char → Char
  | 'n' => '\n'
  | 't' => '\t'
  | 'r' => '\r'
  | 'v' => '\x0B'
  | 'f' => '\x0C'
  | 'e' => '\x1B'
  | '0' => '\x00'
  | c => c

/-- Resolves the backslashes of a string. One that ends the text stands for itself. -/
def unescape : List Char → List Char
  | [] => []
  | [c] => [c]
  | c :: d :: cs => if c == '\\' then unescapeChar d :: unescape cs else c :: unescape (d :: cs)

/-- The length of the plain part of a string, up to its closing quote or an interpolation. -/
def plainLength (opening : List Char) : List Char → Nat
  | [] => 0
  | [c] => if c == '"' || (c != '\\' && opening.isPrefixOf [c]) then 0 else 1
  | c :: d :: cs =>
    if c == '"' then 0
    else if c == '\\' then 2 + plainLength opening cs
    else if opening.isPrefixOf (c :: d :: cs) then 0
    else 1 + plainLength opening (d :: cs)

end TemplateEngine.Lexer
