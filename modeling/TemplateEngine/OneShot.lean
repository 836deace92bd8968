import TemplateEngine.Environment
import TemplateEngine.Json.Reader

/-!
Rendering in one call, with the context given as a text.
-/

namespace TemplateEngine.OneShot

def version : String :=
  "0.3.0"

def context? (text : String) : Option Json :=
  if (Text.trimBlank text.toList).isEmpty then some .null else Json.read? text

def render? (code contextText : String) : Option String :=
  match context? contextText, Environment.withComments {} with
  | some context, .ok env => (env.render ⟨"template", code⟩ context).toOption
  | _, _ => none

end TemplateEngine.OneShot
