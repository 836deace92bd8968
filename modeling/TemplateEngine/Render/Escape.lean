/-!
Escaping text for a page. Main statements: escaping keeps the pieces of a text apart, and no escaped
text holds a character that could open a tag or close an attribute.
-/

namespace TemplateEngine.Render

def escapedChar : Char → List Char
  | '&' => ['&', 'a', 'm', 'p', ';']
  | '<' => ['&', 'l', 't', ';']
  | '>' => ['&', 'g', 't', ';']
  | '"' => ['&', 'q', 'u', 'o', 't', ';']
  | '\'' => ['&', '#', '0', '3', '9', ';']
  | c => [c]

def escapedChars (cs : List Char) : List Char :=
  cs.flatMap escapedChar

/-- A text with the five characters that have a meaning in a page replaced by their entities. -/
def escape (text : String) : String :=
  String.ofList (escapedChars text.toList)

@[simp] theorem escapedChars_append (as bs : List Char) :
    escapedChars (as ++ bs) = escapedChars as ++ escapedChars bs := by
  simp [escapedChars]

theorem not_mem_escapedChar {c : Char} (hc : c = '<' ∨ c = '>' ∨ c = '"' ∨ c = '\'') (d : Char) :
    c ∉ escapedChar d := by
  unfold escapedChar
  split <;> rcases hc with rfl | rfl | rfl | rfl <;> simp <;> exact fun h => absurd h.symm ‹_›

theorem not_mem_escapedChars {c : Char} (hc : c = '<' ∨ c = '>' ∨ c = '"' ∨ c = '\'')
    (cs : List Char) : c ∉ escapedChars cs := by
  simp only [escapedChars, List.mem_flatMap, not_exists, not_and]
  exact fun d _ => not_mem_escapedChar hc d

end TemplateEngine.Render
