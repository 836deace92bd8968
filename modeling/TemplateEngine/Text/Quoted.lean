import TemplateEngine.Text.Case
import TemplateEngine.Text.InvisibleTable

/-!
The quoted form in which listings show texts and characters: on one line, with everything that could
not be seen written by name or by number.
-/

namespace TemplateEngine.Text

/-- The digits of a number in base sixteen, in lower case and without leading zeros. -/
def hexDigits (n : Nat) : List Char :=
  Nat.toDigits 16 n

def quotedChar (quote c : Char) : List Char :=
  if c == quote || c == '\\' then ['\\', c]
  else if c == '\x00' then ['\\', '0']
  else if c == '\t' then ['\\', 't']
  else if c == '\n' then ['\\', 'n']
  else if c == '\r' then ['\\', 'r']
  else if inRanges invisibleRanges c then ['\\', 'u', '\x7b'] ++ hexDigits c.toNat ++ ['\x7d']
  else [c]

def quoted (text : String) : String :=
  String.ofList ('"' :: text.toList.flatMap (quotedChar '"') ++ ['"'])

def quotedSingle (c : Char) : String :=
  String.ofList ('\'' :: quotedChar '\'' c ++ ['\''])

def bracketed (parts : List String) : String :=
  "[" ++ ", ".intercalate parts ++ "]"

end TemplateEngine.Text
