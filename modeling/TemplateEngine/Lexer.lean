import TemplateEngine.Lexer.Step
import TemplateEngine.TokenStream

/-!
Lexers: a template becomes a stream of tokens. Comments are either passed over or kept as tokens.
-/

namespace TemplateEngine

inductive LexError where
  | rejected (e : SyntaxError)
  | invalidMode (mode : Lexer.Mode)
  | invalidOptions (reason : String)
  deriving Repr, DecidableEq

def LexError.display : LexError → String
  | rejected e => e.display
  | invalidMode mode => "Invalid lexer state " ++ mode.title ++ "."
  | invalidOptions reason => "Invalid lexer options: " ++ reason

structure Lexer where
  rules : Lexer.Rules
  comments : Lexer.Comments

namespace Lexer

/-- The lexer of the given settings. All delimiters must have a text. -/
def ofOptions (options : Options) (comments : Comments) : Except LexError Lexer :=
  match Rules.ofOptions? options with
  | some rules => .ok ⟨rules, comments⟩
  | none => .error (.invalidOptions "delimiters must not be empty")

/-- Writes all line breaks as one line feed. -/
def unifyBreaks : List Char → List Char
  | [] => []
  | '\r' :: '\n' :: cs => '\n' :: unifyBreaks cs
  | '\r' :: cs => '\n' :: unifyBreaks cs
  | c :: cs => c :: unifyBreaks cs

/-- The tokens of a text with unified line breaks. Every step takes at least one character, so as
many steps as there are characters suffice, with one more for a comment opened at the very end. -/
def tokens (lexer : Lexer) (code : List Char) : Except Failure (List Token) :=
  match run lexer.rules lexer.comments (code.length + 1) (.start lexer.rules code) with
  | .error e => .error e
  | .ok (tokens, s) =>
    match finish s with
    | .error e => .error (.rejected e)
    | .ok eof => .ok (tokens ++ [eof])

/-- Reads a template into a stream of tokens. -/
def tokenize (lexer : Lexer) (source : Source) : Except LexError TokenStream :=
  match lexer.tokens (unifyBreaks source.code.toList) with
  | .error (.rejected (fault, line)) => .error (.rejected ⟨fault, line, source.name⟩)
  | .error (.invalidMode mode) => .error (.invalidMode mode)
  | .ok tokens => .ok (.ofTokens tokens source.name)

end Lexer

end TemplateEngine
