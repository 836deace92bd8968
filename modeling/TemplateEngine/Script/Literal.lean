/-!
Texts inside scripts: string literals, and names within a comment of one line.
-/

namespace TemplateEngine.Script

def literalChar : Char → List Char
  | '\\' => ['\\', '\\']
  | '\'' => ['\\', '\'']
  | '\n' => ['\\', 'n']
  | '\r' => ['\\', 'r']
  | '\t' => ['\\', 't']
  | '\u2028' => ['\\', 'u', '2', '0', '2', '8']
  | '\u2029' => ['\\', 'u', '2', '0', '2', '9']
  | c => [c]

def literalChars (cs : List Char) : List Char :=
  '\'' :: cs.flatMap literalChar ++ ['\'']

def literal (text : String) : String :=
  String.ofList (literalChars text.toList)

def isLineEnd (c : Char) : Bool :=
  c == '\n' || c == '\r' || c == '\u2028' || c == '\u2029'

def singleLine (text : String) : String :=
  String.ofList (text.toList.map fun c => if isLineEnd c then ' ' else c)

/-- Adds a character to a text, given backwards. A slash takes away a star in front of it. -/
def cancel (text : List Char) (c : Char) : List Char :=
  match text, c with
  | '*' :: rest, '/' => rest
  | text, c => c :: text

/-- Removes star and slash together until they no longer follow each other. -/
def removeCommentEnds (cs : List Char) : List Char :=
  (cs.foldl cancel []).reverse

end TemplateEngine.Script
