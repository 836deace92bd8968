import TemplateEngine.Document.Parser

/-!
Reading documents with the open blocks in place: a parser holds the blocks that it is in, enters a
block once its name has been defined, and leaves it behind the end of its last tag. The rules are
those of `Document.read`.
-/

namespace TemplateEngine

namespace Document

structure NestedParser where
  parser : ParserState
  openBlocks : List String

namespace NestedParser

abbrev Reader := EStateM SyntaxError NestedParser

def within {α : Type} (reader : Document.Reader α) : Reader α := fun state =>
  match reader state.parser with
  | .ok result parser => .ok result { state with parser := parser }
  | .error e parser => .error e { state with parser := parser }

def lift {α : Type} (reader : TokenReader α) : Reader α :=
  within (Document.lift reader)

def enterBlock (name : String) (line : Nat) : Reader Unit := do
  within (defineBlock name line)
  modify fun state => { state with openBlocks := name :: state.openBlocks }

def leaveBlock : Reader Unit :=
  modify fun state => { state with openBlocks := state.openBlocks.tail }

def currentBlock : Reader (Option String) :=
  return (← get).openBlocks.head?

/-- Takes the closing delimiter of the last tag of a block and leaves the block. -/
def closeBlock : Reader Unit := do
  within blockEnd
  leaveBlock

mutual

def readNodes (tags : TagSet) : Nat → List String → Reader (List Node)
  | 0, _ => lift Expr.stop
  | steps + 1, ends =>
    Grammar.nodes lift (lift Expr.read) (readTag tags steps) (readNodes tags steps ends) tags ends

def readTag (tags : TagSet) : Nat → Tag → Nat → Reader Node
  | 0, _, _ => lift Expr.stop
  | steps + 1, tag, line =>
    Grammar.tag lift (lift Expr.read) (within lastExpression) (within blockEnd) enterBlock
      closeBlock currentBlock (readNodes tags steps) (fun _ => readNodes tags steps ["endblock"])
      (readBranches tags steps) tag line

def readBranches (tags : TagSet) :
    Nat → Nat → Option (List Node) → Reader (List Branch × Option (List Node))
  | 0, _, _ => lift Expr.stop
  | steps + 1, line, otherwise =>
    Grammar.branches lift (within lastExpression) (within blockEnd) (readNodes tags steps)
      (readBranches tags steps) line otherwise

end

/-- Reads a whole document, in no block at first. -/
def read (tags : TagSet) (stream : TokenStream) : Except SyntaxError Document :=
  match readNodes tags (stepLimit stream.after.length) [] ⟨⟨stream, []⟩, []⟩ with
  | .ok nodes _ => .ok ⟨stream.source, nodes⟩
  | .error e _ => .error e

end NestedParser

end Document

end TemplateEngine
