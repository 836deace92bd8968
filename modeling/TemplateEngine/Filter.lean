/-!
The filters that can be applied to a value, and the names by which templates use them. Compiling
asks for the names only, rendering for the filters.
-/

namespace TemplateEngine

inductive Filter where
  | upper
  | lower
  | trim
  | length
  | join
  | fallback
  | escape
  | raw
  deriving Repr, DecidableEq

namespace Filter

/-- The names that may be used in a template. -/
def names : List String :=
  ["upper", "lower", "trim", "length", "join", "default", "escape", "e", "raw"]

/-- The filter that is applied for a name. Escaping has a short name too. -/
def ofName? : String → Option Filter
  | "upper" => some upper
  | "lower" => some lower
  | "trim" => some trim
  | "length" => some length
  | "join" => some join
  | "default" => some fallback
  | "escape" | "e" => some escape
  | "raw" => some raw
  | _ => none

end Filter

end TemplateEngine
