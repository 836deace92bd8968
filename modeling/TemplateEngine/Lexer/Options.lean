/-!
The settings of a lexer: delimiters, the marks that trim white space, and the operators.
-/

namespace TemplateEngine.Lexer

/-- The operators that are known unless others are given. -/
def defaultOperators : List String :=
  ["not", "or", "and", "==", "!=", "<", ">", ">=", "<=", "not in", "in", "~", "+", "-", "*", "/",
    "//", "%", "**"]

structure Options where
  comment : String × String := ("\x7b#", "#\x7d")
  block : String × String := ("\x7b%", "%\x7d")
  print : String × String := ("\x7b\x7b", "\x7d\x7d")
  trim : Char := '-'
  lineTrim : Char := '~'
  interpolation : String × String := ("#\x7b", "\x7d")
  operators : List String := defaultOperators
  deriving Repr, DecidableEq

inductive Mode where
  | data
  | block
  | print
  | string
  | interpolation
  | comment
  deriving Repr, DecidableEq

def Mode.title : Mode → String
  | data => "Data"
  | block => "Block"
  | print => "Var"
  | string => "String"
  | interpolation => "Interpolation"
  | comment => "Comment"

end TemplateEngine.Lexer
