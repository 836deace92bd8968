import TemplateEngine.Document
import TemplateEngine.Document.Tag
import TemplateEngine.Lexer.Options
import TemplateEngine.Proofs.Expr.Printed

/-!
Documents written out as tokens: tags between their delimiters with the nodes of a body behind them,
exposed comments as tags with a string, hidden comments as tags with a text.
-/

namespace TemplateEngine

abbrev Spelling := TokenKind × String

structure Layout where
  options : Lexer.Options
  wraps : Expr → Bool

namespace Layout

/-- The lexemes of a whole expression. The tokens of a string do not tell its quotes. -/
def lexemes (layout : Layout) (e : Expr) : List Lexeme :=
  if layout.wraps e then e.lexemes fun _ _ => .double else e.bareLexemes fun _ _ => .double

def expr (layout : Layout) (e : Expr) : List Spelling :=
  (layout.lexemes e).map Lexeme.spelling

def openTag (layout : Layout) (word : String) (inside : List Spelling) : List Spelling :=
  (.blockStart, layout.options.block.1) :: (.name, word) :: inside

def tag (layout : Layout) (word : String) (inside : List Spelling) : List Spelling :=
  layout.openTag word inside ++ [(.blockEnd, layout.options.block.2)]

def hiddenComment (layout : Layout) (text : String) : List Spelling :=
  [(.blockStart, layout.options.comment.1), (.name, Tag.comment.name), (.text, text),
    (.blockEnd, layout.options.comment.2)]

end Layout

def loopNames : Option String → String → List Spelling
  | none, target => [(.name, target), (.operator, "in")]
  | some key, target =>
    [(.name, key), (.punctuation, ","), (.name, target), (.operator, "in")]

mutual

def Node.spelling (layout : Layout) : Node → List Spelling
  | .text _ text => [(.text, text)]
  | .print _ expr =>
    (.varStart, layout.options.print.1) :: (layout.expr expr ++ [(.varEnd, layout.options.print.2)])
  | .choice _ branches otherwise =>
    branchesSpelling layout "if" branches ++ (otherwiseSpelling layout otherwise ++
      layout.tag "endif" [])
  | .loop _ key target iterable body otherwise =>
    layout.tag "for" (loopNames key target ++ layout.expr iterable) ++ (nodesSpelling layout body ++
      (otherwiseSpelling layout otherwise ++ layout.tag "endfor" []))
  | .block _ name body =>
    layout.tag "block" [(.name, name)] ++ (nodesSpelling layout body ++ layout.tag "endblock" [])
  | .comment _ text exposed =>
    if exposed then layout.tag "comment" [(.string, text)] else layout.hiddenComment text

def nodesSpelling (layout : Layout) : List Node → List Spelling
  | [] => []
  | node :: nodes => node.spelling layout ++ nodesSpelling layout nodes

/-- The tokens of branches, of which the first begins with the given word. -/
def branchesSpelling (layout : Layout) : String → List Branch → List Spelling
  | _, [] => []
  | word, .mk condition body :: branches =>
    layout.tag word (layout.expr condition) ++ (nodesSpelling layout body ++
      branchesSpelling layout "elseif" branches)

def otherwiseSpelling (layout : Layout) : Option (List Node) → List Spelling
  | none => []
  | some body => layout.tag "else" [] ++ nodesSpelling layout body

end

/-- The tokens of a document, without an end token. -/
def Document.spelling (layout : Layout) (document : Document) : List Spelling :=
  nodesSpelling layout document.nodes

mutual

def Node.unlined : Node → Node
  | .text _ text => .text 0 text
  | .print _ expr => .print 0 expr.unlined
  | .choice _ branches otherwise => .choice 0 (unlinedBranches branches) (unlinedBody otherwise)
  | .loop _ key target iterable body otherwise =>
    .loop 0 key target iterable.unlined (unlinedNodes body) (unlinedBody otherwise)
  | .block _ name body => .block 0 name (unlinedNodes body)
  | .comment _ text exposed => .comment 0 text exposed

def unlinedNodes : List Node → List Node
  | [] => []
  | node :: nodes => node.unlined :: unlinedNodes nodes

def unlinedBranches : List Branch → List Branch
  | [] => []
  | .mk condition body :: branches =>
    .mk condition.unlined (unlinedNodes body) :: unlinedBranches branches

def unlinedBody : Option (List Node) → Option (List Node)
  | none => none
  | some body => some (unlinedNodes body)

end

def Document.unlined (document : Document) : Document :=
  { document with nodes := unlinedNodes document.nodes }

mutual

def Node.blockNames : Node → List String
  | .text _ _ | .print _ _ | .comment _ _ _ => []
  | .choice _ branches otherwise => blockNamesOfBranches branches ++ blockNamesOfBody otherwise
  | .loop _ _ _ _ body otherwise => blockNamesOfNodes body ++ blockNamesOfBody otherwise
  | .block _ name body => name :: blockNamesOfNodes body

def blockNamesOfNodes : List Node → List String
  | [] => []
  | node :: nodes => node.blockNames ++ blockNamesOfNodes nodes

def blockNamesOfBranches : List Branch → List String
  | [] => []
  | .mk _ body :: branches => blockNamesOfNodes body ++ blockNamesOfBranches branches

def blockNamesOfBody : Option (List Node) → List String
  | none => []
  | some body => blockNamesOfNodes body

end

/-- The names of the blocks in a document, in the order in which they begin. -/
def Document.blockNames (document : Document) : List String :=
  blockNamesOfNodes document.nodes

mutual

/-- Whether the tokens of a node stand for it: every choice has a branch, and all expressions are
readable. -/
def Node.Readable : Node → Prop
  | .text _ _ | .comment _ _ _ => True
  | .print _ expr => expr.Readable
  | .choice _ branches otherwise =>
    branches ≠ [] ∧ ReadableBranches branches ∧ ReadableBody otherwise
  | .loop _ _ _ iterable body otherwise =>
    iterable.Readable ∧ ReadableNodes body ∧ ReadableBody otherwise
  | .block _ _ body => ReadableNodes body

def ReadableNodes : List Node → Prop
  | [] => True
  | node :: nodes => node.Readable ∧ ReadableNodes nodes

def ReadableBranches : List Branch → Prop
  | [] => True
  | .mk condition body :: branches =>
    condition.Readable ∧ ReadableNodes body ∧ ReadableBranches branches

def ReadableBody : Option (List Node) → Prop
  | none => True
  | some body => ReadableNodes body

end

/-- Whether a document can be read back from its tokens: all its nodes can, and no two blocks have
one name. -/
structure Document.Readable (document : Document) : Prop where
  nodes : ReadableNodes document.nodes
  blocks : document.blockNames.Nodup

end TemplateEngine
