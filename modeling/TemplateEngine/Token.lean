/-!
Tokens: the pieces in which templates are read, each with its text and the line it stands on.
-/

namespace TemplateEngine

inductive TokenKind where
  | eof
  | text
  | blockStart
  | varStart
  | blockEnd
  | varEnd
  | name
  | number
  | string
  | operator
  | punctuation
  | interpolationStart
  | interpolationEnd
  deriving Repr, DecidableEq, Inhabited

namespace TokenKind

def all : List TokenKind :=
  [eof, text, blockStart, varStart, blockEnd, varEnd, name, number, string, operator, punctuation,
    interpolationStart, interpolationEnd]

def describe : TokenKind → String
  | eof => "end of template"
  | text => "text"
  | blockStart => "begin of statement block"
  | varStart => "begin of print statement"
  | blockEnd => "end of statement block"
  | varEnd => "end of print statement"
  | name => "name"
  | number => "number"
  | string => "string"
  | operator => "operator"
  | punctuation => "punctuation"
  | interpolationStart => "begin of string interpolation"
  | interpolationEnd => "end of string interpolation"

def tag : TokenKind → String
  | eof => "eof"
  | text => "text"
  | blockStart => "block_start"
  | varStart => "var_start"
  | blockEnd => "block_end"
  | varEnd => "var_end"
  | name => "name"
  | number => "number"
  | string => "string"
  | operator => "operator"
  | punctuation => "punctuation"
  | interpolationStart => "interpolation_start"
  | interpolationEnd => "interpolation_end"

def title : TokenKind → String
  | eof => "Eof"
  | text => "Text"
  | blockStart => "BlockStart"
  | varStart => "VarStart"
  | blockEnd => "BlockEnd"
  | varEnd => "VarEnd"
  | name => "Name"
  | number => "Number"
  | string => "String"
  | operator => "Operator"
  | punctuation => "Punctuation"
  | interpolationStart => "InterpolationStart"
  | interpolationEnd => "InterpolationEnd"

def ofTag? (tag : String) : Option TokenKind :=
  all.find? fun kind => kind.tag == tag

end TokenKind

structure Token where
  kind : TokenKind
  value : String
  line : Nat
  deriving Repr, DecidableEq, Inhabited

namespace Token

/-- Whether a token has the given kind and, when one is given, the given text. -/
def test (token : Token) (kind : TokenKind) (value? : Option String) : Bool :=
  token.kind == kind && value?.all (token.value == ·)

def isEof (token : Token) : Bool :=
  token.kind == .eof

@[simp] theorem test_none (token : Token) (kind : TokenKind) :
    token.test kind none = (token.kind == kind) := by
  simp [test]

@[simp] theorem test_some (token : Token) (kind : TokenKind) (value : String) :
    token.test kind (some value) = (token.kind == kind && token.value == value) := by
  simp [test]

end Token

end TemplateEngine
