import TemplateEngine.Decimal.Binary
import TemplateEngine.Expr
import TemplateEngine.Token

/-!
The source text of expressions: lexemes with one space between them, parentheses around every unary
and binary expression, and string literals in quotes of either kind with all special characters
escaped.
-/

namespace TemplateEngine

inductive Quote where
  | single
  | double
  deriving Repr, DecidableEq

namespace Quote

def mark : Quote → Char
  | single => '\''
  | double => '"'

/-- A character between quotes. The number sign could begin an interpolation, and a carriage return
would be read as a line feed. -/
def escapeChar (quote : Quote) (c : Char) : List Char :=
  if c == '\r' then ['\\', 'r']
  else if c == '\\' || c == quote.mark || c == '#' then ['\\', c]
  else [c]

def escape (quote : Quote) (cs : List Char) : List Char :=
  cs.flatMap quote.escapeChar

end Quote

inductive Lexeme where
  | name (text : String)
  | number (value : Nat)
  | string (quote : Quote) (text : String)
  | operator (text : String)
  | mark (c : Char)
  deriving Repr, DecidableEq

namespace Lexeme

def kind : Lexeme → TokenKind
  | name _ => .name
  | number _ => .number
  | string _ _ => .string
  | operator _ => .operator
  | mark _ => .punctuation

def value : Lexeme → String
  | name text => text
  | number value => String.ofList (Nat.toDigits 10 value)
  | string _ text => text
  | operator text => text
  | mark c => String.ofList [c]

/-- The text of the lexeme. Only that of a string literal differs from its token. -/
def chars : Lexeme → List Char
  | string quote text => quote.mark :: (quote.escape text.toList ++ [quote.mark])
  | name text | operator text => text.toList
  | number value => Nat.toDigits 10 value
  | mark c => [c]

end Lexeme

def spaced (ws : List Lexeme) : List Char :=
  ws.flatMap fun w => ' ' :: w.chars

@[simp] theorem spaced_nil : spaced [] = [] := rfl

@[simp] theorem spaced_cons (w : Lexeme) (ws : List Lexeme) :
    spaced (w :: ws) = ' ' :: w.chars ++ spaced ws :=
  rfl

@[simp] theorem spaced_append (ws more : List Lexeme) :
    spaced (ws ++ more) = spaced ws ++ spaced more :=
  List.flatMap_append

def Token.spelling (token : Token) : TokenKind × String :=
  (token.kind, token.value)

def Lexeme.spelling (w : Lexeme) : TokenKind × String :=
  (w.kind, w.value)

def Spells (ws : List Lexeme) (ts : List Token) : Prop :=
  ts.map Token.spelling = ws.map Lexeme.spelling

theorem spells_nil_iff {ts : List Token} : Spells [] ts ↔ ts = [] := by
  unfold Spells
  exact List.map_eq_nil_iff

theorem spells_cons_iff {w : Lexeme} {ws : List Lexeme} {ts : List Token} :
    Spells (w :: ws) ts ↔
      ∃ t us, ts = t :: us ∧ t.spelling = w.spelling ∧ Spells ws us := by
  unfold Spells
  exact List.map_eq_cons_iff

theorem spells_append_iff {ws more : List Lexeme} {ts : List Token} :
    Spells (ws ++ more) ts ↔ ∃ us vs, ts = us ++ vs ∧ Spells ws us ∧ Spells more vs := by
  unfold Spells
  rw [List.map_append]
  exact List.map_eq_append_iff

theorem spells_singleton {w : Lexeme} {token : Token} (h : token.spelling = w.spelling) :
    Spells [w] [token] :=
  congrArg (· :: []) h

theorem Spells.length_eq {ws : List Lexeme} {ts : List Token} (h : Spells ws ts) :
    ts.length = ws.length := by
  simpa using congrArg List.length h

def isIdentifierStart (c : Char) : Bool :=
  c.isAlpha || c == '_'

def isIdentifierChar (c : Char) : Bool :=
  c.isAlphanum || c == '_'

/-- Letters, digits and underscores of ASCII, the first of them no digit. -/
def IsIdentifier (text : String) : Prop :=
  ∃ c cs, text.toList = c :: cs ∧ isIdentifierStart c = true ∧ cs.all isIdentifierChar = true

def operatorWords : List String :=
  ["not", "or", "and", "in"]

/-- Whether a word is read as a name wherever it stands. -/
def IsName (text : String) : Prop :=
  IsIdentifier text ∧ text ∉ operatorWords

def UnaryOp.text : UnaryOp → String
  | not => "not"
  | neg => "-"
  | pos => "+"

@[simp] theorem UnaryOp.ofText?_text (op : UnaryOp) : ofText? op.text = some op := by
  cases op <;> rfl

def BinaryOp.text : BinaryOp → String
  | or => "or"
  | and => "and"
  | eq => "=="
  | notEq => "!="
  | lt => "<"
  | gt => ">"
  | ltEq => "<="
  | gtEq => ">="
  | isIn => "in"
  | notIn => "not in"
  | add => "+"
  | sub => "-"
  | concat => "~"
  | mul => "*"
  | div => "/"
  | floorDiv => "//"
  | mod => "%"
  | pow => "**"

@[simp] theorem BinaryOp.ofText?_text (op : BinaryOp) : ofText? op.text = some op := by
  cases op <;> rfl

namespace Expr

/-- The natural number that a double stands for, zero if there is none. -/
def natural (value : Float) : Nat :=
  ((Decimal.Binary.ofFloat value).integer?.getD 0).toNat

mutual

/-- The lexemes of an expression as a part of another one. The quotes of a string literal may depend
on its line and its text. -/
def lexemes (quote : Nat → String → Quote) : Expr → List Lexeme
  | null _ => [.name "null"]
  | bool _ value => [.name (if value then "true" else "false")]
  | number _ value => [.number (natural value)]
  | string line value => [.string (quote line value) value]
  | name _ value => [.name value]
  | array _ items => .mark '[' :: (itemLexemes quote true items ++ [.mark ']'])
  | attr _ object member => lexemes quote object ++ [.mark '.', .name member]
  | item _ object index =>
    lexemes quote object ++ .mark '[' :: (lexemes quote index ++ [.mark ']'])
  | unary _ op operand => .mark '(' :: (.operator op.text :: lexemes quote operand ++ [.mark ')'])
  | binary _ op left right =>
    .mark '(' :: (lexemes quote left ++ .operator op.text :: lexemes quote right ++ [.mark ')'])
  | filter _ word input [] => lexemes quote input ++ [.mark '|', .name word]
  | filter _ word input (arg :: args) =>
    lexemes quote input ++
      .mark '|' :: .name word :: .mark '(' :: (itemLexemes quote true (arg :: args) ++ [.mark ')'])

/-- The lexemes of items with commas between them, and one in front unless the first is among
them. -/
def itemLexemes (quote : Nat → String → Quote) : Bool → List Expr → List Lexeme
  | _, [] => []
  | isFirst, e :: es =>
    (if isFirst then [] else [.mark ',']) ++ lexemes quote e ++ itemLexemes quote false es

end

/-- The lexemes of a whole expression. It needs no parentheses of its own. -/
def bareLexemes (quote : Nat → String → Quote) : Expr → List Lexeme
  | unary _ op operand => .operator op.text :: lexemes quote operand
  | binary _ op left right => lexemes quote left ++ .operator op.text :: lexemes quote right
  | e => lexemes quote e

mutual

def unlined : Expr → Expr
  | null _ => null 0
  | bool _ value => bool 0 value
  | number _ value => number 0 value
  | string _ value => string 0 value
  | name _ value => name 0 value
  | array _ items => array 0 (allUnlined items)
  | attr _ object member => attr 0 (unlined object) member
  | item _ object index => item 0 (unlined object) (unlined index)
  | unary _ op operand => unary 0 op (unlined operand)
  | binary _ op left right => binary 0 op (unlined left) (unlined right)
  | filter _ word input args => filter 0 word (unlined input) (allUnlined args)

def allUnlined : List Expr → List Expr
  | [] => []
  | e :: es => unlined e :: allUnlined es

end

def literalWords : List String :=
  ["true", "TRUE", "false", "FALSE", "null", "NULL", "none", "NONE"]

mutual

/-- Whether the tokens of an expression stand for it: its numbers are natural ones below `2 ^ 53`,
and no name is spelled like a literal. -/
def Readable : Expr → Prop
  | null _ | bool _ _ | string _ _ => True
  | number _ value => ∃ n : Nat, n < 2 ^ 53 ∧ value = Decimal.ofInteger n
  | name _ value => value ∉ literalWords
  | array _ items => AllReadable items
  | attr _ object _ => Readable object
  | item _ object index => Readable object ∧ Readable index
  | unary _ _ operand => Readable operand
  | binary _ _ left right => Readable left ∧ Readable right
  | filter _ _ input args => Readable input ∧ AllReadable args

def AllReadable : List Expr → Prop
  | [] => True
  | e :: es => Readable e ∧ AllReadable es

end

mutual

/-- Whether the names of variables, members and filters are read as names. -/
def Spellable : Expr → Prop
  | null _ | bool _ _ | number _ _ | string _ _ => True
  | name _ value => IsName value
  | array _ items => AllSpellable items
  | attr _ object member => Spellable object ∧ IsName member
  | item _ object index => Spellable object ∧ Spellable index
  | unary _ _ operand => Spellable operand
  | binary _ _ left right => Spellable left ∧ Spellable right
  | filter _ word input args => Spellable input ∧ IsName word ∧ AllSpellable args

def AllSpellable : List Expr → Prop
  | [] => True
  | e :: es => Spellable e ∧ AllSpellable es

end

end Expr

end TemplateEngine
