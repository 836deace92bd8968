/-!
Cutting a text at its line feeds.
-/

namespace TemplateEngine.Text

def consLine (c : Char) : List (List Char) → List (List Char)
  | [] => [[c]]
  | line :: lines => (c :: line) :: lines

/-- The parts of a text between its line feeds; an empty text is one empty line. -/
def lines : List Char → List (List Char)
  | [] => [[]]
  | c :: cs => if c == '\n' then [] :: lines cs else consLine c (lines cs)

end TemplateEngine.Text
