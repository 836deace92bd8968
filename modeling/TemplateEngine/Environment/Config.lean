import TemplateEngine.Environment

/-!
Settings from JSON. Every setting may be absent and unknown ones are passed over, but one that is
present must have exactly its type. A list gives the settings in their order.
-/

namespace TemplateEngine.Config

/-- The named parts of a value: the fields of an object, or the items of a list by position. -/
def parts? (names : List String) : Json → Option (List (String × Json))
  | .object fields => some fields
  | .array items => if items.length ≤ names.length then some (names.zip items) else none
  | _ => none

def part? {α : Type} (read? : Json → Option α) (default : α) (name : String)
    (parts : List (String × Json)) : Option α :=
  match parts.filter (·.1 == name) with
  | [] => some default
  | [part] => read? part.2
  | _ => none

def bool? : Json → Option Bool
  | .bool value => some value
  | _ => none

def string? : Json → Option String
  | .string s => some s
  | _ => none

def char? (value : Json) : Option Char :=
  match (string? value).map String.toList with
  | some [c] => some c
  | _ => none

def pair? : Json → Option (String × String)
  | .array [.string first, .string second] => some (first, second)
  | _ => none

def strings? : Json → Option (List String)
  | .array items => items.mapM string?
  | _ => none

def lexer? (value : Json) : Option Lexer.Options := do
  let default : Lexer.Options := {}
  let parts ← parts? ["tag_comment", "tag_block", "tag_variable", "whitespace_trim",
    "whitespace_line_trim", "interpolation", "operators"] value
  return {
    comment := ← part? pair? default.comment "tag_comment" parts
    block := ← part? pair? default.block "tag_block" parts
    print := ← part? pair? default.print "tag_variable" parts
    trim := ← part? char? default.trim "whitespace_trim" parts
    lineTrim := ← part? char? default.lineTrim "whitespace_line_trim" parts
    interpolation := ← part? pair? default.interpolation "interpolation" parts
    operators := ← part? strings? default.operators "operators" parts }

def environment? (value : Json) : Option Environment.Options := do
  let default : Environment.Options := {}
  let parts ← parts? ["debug", "autoescape", "strict_variables", "lexer"] value
  return {
    debug := ← part? bool? default.debug "debug" parts
    autoescape := ← part? bool? default.autoescape "autoescape" parts
    strict := ← part? bool? default.strict "strict_variables" parts
    lexer := ← part? lexer? default.lexer "lexer" parts }

end TemplateEngine.Config
