import TemplateEngine.Token

/-!
What can be wrong with a template. A fault says what was found and where nothing else could be; a
syntax error adds the line and the template it was found in.
-/

namespace TemplateEngine

structure Source where
  name : String
  code : String
  deriving Repr, DecidableEq

def quotedNames (names : List String) : String :=
  ", ".intercalate (names.map fun name => "\"" ++ name ++ "\"")

inductive SyntaxFault where
  | unclosed (opener : String)
  | unclosedComment
  | unclosedVerbatim
  | unexpectedCloser (closer : Char)
  | unexpectedCharacter (c : Char)
  | unexpectedEnd
  | mismatch (found : TokenKind) (value : String) (wanted : TokenKind)
    (wantedValue? : Option String)
  | unexpectedToken (found : TokenKind) (value : String)
  | missingMember (found : TokenKind)
  | invalidNumber (text : String)
  | missingTagName
  | unknownTag (name : String) (expected : List String)
  | missingEndTag (expected : List String)
  | strayIfTag (name : String) (opened : Nat)
  | duplicateBlock (name : String) (defined : Nat)
  | wrongEndblock (name : String) (given : String)
  | outOfSteps
  | other (text : String)
  deriving Repr, DecidableEq

def SyntaxFault.message : SyntaxFault → String
  | unclosed opener => "Unclosed \"" ++ opener ++ "\"."
  | unclosedComment => "Unclosed comment."
  | unclosedVerbatim => "Unexpected end of file: Unclosed \"verbatim\" block."
  | unexpectedCloser closer => "Unexpected \"" ++ closer.toString ++ "\"."
  | unexpectedCharacter c => "Unexpected character \"" ++ c.toString ++ "\"."
  | unexpectedEnd => "Unexpected end of template."
  | mismatch found value wanted wantedValue? =>
    "Unexpected token \"" ++ found.describe ++ "\"" ++
      (if value.isEmpty then "" else " of value \"" ++ value ++ "\"") ++
      " (\"" ++ wanted.describe ++ "\" expected" ++
      (match wantedValue? with
        | some wantedValue => " with value \"" ++ wantedValue ++ "\""
        | none => "") ++ ")."
  | unexpectedToken found value =>
    "Unexpected token \"" ++ found.describe ++ "\" of value \"" ++ value ++ "\"."
  | missingMember found => "Expected name or number after \".\", got \"" ++ found.describe ++ "\"."
  | invalidNumber text => "Invalid number \"" ++ text ++ "\"."
  | missingTagName => "A block must start with a tag name"
  | unknownTag name expected =>
    if expected.isEmpty then "Unknown \"" ++ name ++ "\" tag."
    else "Unknown \"" ++ name ++ "\" tag (expecting one of " ++ quotedNames expected ++ ")."
  | missingEndTag expected =>
    "Unexpected end of template (expecting one of " ++ quotedNames expected ++ ")."
  | strayIfTag name opened =>
    "Unexpected \"" ++ name ++ "\" tag closing the \"if\" block started at line " ++
      Nat.repr opened ++ "."
  | duplicateBlock name defined =>
    "The block \"" ++ name ++ "\" has already been defined line " ++ Nat.repr defined ++ "."
  | wrongEndblock name given =>
    "Expected endblock for block \"" ++ name ++ "\" (but \"" ++ given ++ "\" given)."
  | outOfSteps => "The template is nested too deeply."
  | other text => text

structure SyntaxError where
  fault : SyntaxFault
  line : Nat
  source : String
  deriving Repr, DecidableEq

def dropFullStop (message : String) : String :=
  match message.toList.reverse with
  | '.' :: rest => String.ofList rest.reverse
  | _ => message

/-- The whole text of an error: its message with the place in front of the full stop. -/
def SyntaxError.display (e : SyntaxError) : String :=
  dropFullStop e.fault.message ++ " in \"" ++ e.source ++ "\" at line " ++ Nat.repr e.line ++ "."

end TemplateEngine
