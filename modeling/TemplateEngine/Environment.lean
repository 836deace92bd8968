import TemplateEngine.Document.Parser
import TemplateEngine.Lexer
import TemplateEngine.Render
import TemplateEngine.Script

/-!
Environments: a lexer, a set of tags and settings, with which templates are read, compiled and
rendered.
-/

namespace TemplateEngine

inductive ParseError where
  | rejected (e : SyntaxError)
  | invalid (reason : String)
  deriving Repr, DecidableEq

namespace ParseError

def display : ParseError → String
  | rejected e => e.display
  | invalid reason => reason

def line? : ParseError → Option Nat
  | rejected e => some e.line
  | invalid _ => none

def ofLexError : LexError → ParseError
  | .rejected e => rejected e
  | e => invalid e.display

end ParseError

inductive EngineError where
  | lex (e : LexError)
  | parse (e : ParseError)
  | script (e : ScriptError)
  | render (e : RenderError)
  deriving Repr, DecidableEq

namespace EngineError

def display : EngineError → String
  | lex e => e.display
  | parse e => e.display
  | script e => e.display
  | render e => e.display

/-- The line of the template that an error is about, when it is known. -/
def line? : EngineError → Option Nat
  | lex (.rejected e) => some e.line
  | lex _ => none
  | parse e => e.line?
  | script _ => none
  | render e => some e.line

end EngineError

structure Environment where
  debug : Bool
  autoescape : Bool
  strict : Bool
  lexerOptions : Lexer.Options
  lexer : Lexer
  tags : TagSet
  extensions : List String

namespace Environment

structure Options where
  debug : Bool := false
  autoescape : Bool := true
  strict : Bool := false
  lexer : Lexer.Options := {}
  deriving Repr, DecidableEq

/-- The environment with the given settings, a lexer that drops comments and the built-in tags. -/
def ofOptions (options : Options) : Except EngineError Environment :=
  match Lexer.ofOptions options.lexer .drop with
  | .error e => .error (.lex e)
  | .ok lexer =>
    .ok
      { debug := options.debug
        autoescape := options.autoescape
        strict := options.strict
        lexerOptions := options.lexer
        lexer := lexer
        tags := .builtins
        extensions := [] }

def withLexer (lexer : Lexer) (env : Environment) : Environment :=
  { env with lexer := lexer }

/-- Replaces the lexer by one that keeps comments under the settings of the environment. -/
def keepComments (env : Environment) : Except EngineError Environment :=
  match Lexer.ofOptions env.lexerOptions .keep with
  | .error e => .error (.lex e)
  | .ok lexer => .ok (env.withLexer lexer)

def addTag (tag : Tag) (env : Environment) : Environment :=
  { env with tags := env.tags.insert tag }

/-- Adds the extension that knows the tag of comments. -/
def addCommentExtension (env : Environment) : Environment :=
  { env.addTag .comment with extensions := env.extensions ++ ["comment"] }

/-- The environment with the given settings that keeps comments and knows their tag. -/
def withComments (options : Options) : Except EngineError Environment :=
  match ofOptions options with
  | .error e => .error e
  | .ok env => env.keepComments.map addCommentExtension

def hasExtension (env : Environment) (name : String) : Bool :=
  env.extensions.contains name

def tokenize (env : Environment) (source : Source) : Except EngineError TokenStream :=
  (env.lexer.tokenize source).mapError .lex

def parse (env : Environment) (stream : TokenStream) : Except EngineError Document :=
  (Document.read env.tags stream).mapError fun e => .parse (.rejected e)

def parseSource (env : Environment) (source : Source) : Except EngineError Document := do
  let stream ← env.tokenize source
  env.parse stream

def scriptOptions (env : Environment) : Script.Options :=
  ⟨env.debug, env.autoescape⟩

def renderOptions (env : Environment) : Render.Options :=
  ⟨env.autoescape, env.strict⟩

def compile (env : Environment) (document : Document) : Except EngineError String :=
  (Script.ofDocument env.scriptOptions document).mapError .script

def compileSource (env : Environment) (source : Source) : Except EngineError String := do
  let document ← env.parseSource source
  env.compile document

def render (env : Environment) (source : Source) (context : Json) : Except EngineError String := do
  let document ← env.parseSource source
  (Render.ofDocument env.renderOptions document context).mapError .render

end Environment

end TemplateEngine
