import TemplateEngine.Document.Parser

/-!
Reading documents on the record: a parser that notes which of its routines it enters, after how many
tokens, and inside of which others. The rules are those of `Document.read`.
-/

namespace TemplateEngine

namespace Document

inductive Routine where
  | nodes
  | tag
  | branches
  | expression
  | operators
  | operand
  | primary
  | parts
  | items
  | arguments
  | accesses
  deriving Repr, DecidableEq

structure Visit where
  routine : Routine
  place : Nat
  deriving Repr, DecidableEq

/-- A parser together with all visits so far, the latest first. Each is noted with the visits that
it is made from, the innermost first. -/
structure TracedParser where
  parser : ParserState
  log : List (List Visit)

namespace TracedParser

abbrev Reader := EStateM SyntaxError TracedParser

def within {α : Type} (reader : Document.Reader α) : Reader α := fun state =>
  match reader state.parser with
  | .ok result parser => .ok result { state with parser := parser }
  | .error e parser => .error e { state with parser := parser }

def lift {α : Type} (reader : TokenReader α) : Reader α :=
  within (Document.lift reader)

/-- Enters a routine from the visits of `trail`, and gives the visits that it goes on from. -/
def enter (routine : Routine) (trail : List Visit) : Reader (List Visit) := do
  let state ← get
  let trail := ⟨routine, state.parser.stream.position⟩ :: trail
  set { state with log := trail :: state.log }
  return trail

mutual

def readFrom : Nat → List Visit → Nat → Reader Expr
  | 0, _, _ => lift Expr.stop
  | steps + 1, trail, minimum => do
    let trail ← enter .expression trail
    Grammar.expression (readOperand steps trail) (readTail steps trail) minimum

def readTail : Nat → List Visit → Nat → Expr → Reader Expr
  | 0, _, _, _ => lift Expr.stop
  | steps + 1, trail, minimum, left => do
    let trail ← enter .operators trail
    Grammar.operators lift (readFrom steps trail) (readTail steps trail) minimum left

def readOperand : Nat → List Visit → Reader Expr
  | 0, _ => lift Expr.stop
  | steps + 1, trail => do
    let trail ← enter .operand trail
    Grammar.operand lift (readFrom steps trail) (readPrimary steps trail) (readPostfix steps trail)

def readPrimary : Nat → List Visit → Reader Expr
  | 0, _ => lift Expr.stop
  | steps + 1, trail => do
    let trail ← enter .primary trail
    Grammar.primary lift (readFrom steps trail) (readParts steps trail) (readItems steps trail)

def readParts : Nat → List Visit → Bool → Reader (List Expr)
  | 0, _, _ => lift Expr.stop
  | steps + 1, trail, plainMayFollow => do
    let trail ← enter .parts trail
    Grammar.parts lift (readFrom steps trail) (readParts steps trail) plainMayFollow

def readItems : Nat → List Visit → Bool → Reader (List Expr)
  | 0, _, _ => lift Expr.stop
  | steps + 1, trail, isFirst => do
    let trail ← enter .items trail
    Grammar.items lift (readFrom steps trail) (readItems steps trail) isFirst

def readArguments : Nat → List Visit → Bool → Reader (List Expr)
  | 0, _, _ => lift Expr.stop
  | steps + 1, trail, isFirst => do
    let trail ← enter .arguments trail
    Grammar.arguments lift (readFrom steps trail) (readArguments steps trail) isFirst

def readPostfix : Nat → List Visit → Expr → Reader Expr
  | 0, _, _ => lift Expr.stop
  | steps + 1, trail, object => do
    let trail ← enter .accesses trail
    Grammar.accesses lift (readFrom steps trail) (readArguments steps trail)
      (readPostfix steps trail) object

end

def readExpr (trail : List Visit) : Reader Expr := do
  readFrom (Expr.stepLimit ((← get).parser.stream.after.length)) trail 0

def lastExpression (trail : List Visit) : Reader Expr := do
  let expr ← readExpr trail
  within blockEnd
  return expr

mutual

def readNodes (tags : TagSet) :
    Nat → List Visit → List String → Option String → Reader (List Node)
  | 0, _, _, _ => lift Expr.stop
  | steps + 1, trail, ends, enclosing => do
    let trail ← enter .nodes trail
    Grammar.nodes lift (readExpr trail)
      (fun tag line => readTag tags steps trail tag line enclosing)
      (readNodes tags steps trail ends enclosing) tags ends

def readTag (tags : TagSet) : Nat → List Visit → Tag → Nat → Option String → Reader Node
  | 0, _, _, _, _ => lift Expr.stop
  | steps + 1, trail, tag, line, enclosing => do
    let trail ← enter .tag trail
    Grammar.tag lift (readExpr trail) (lastExpression trail) (within blockEnd)
      (fun name line => within (defineBlock name line)) (within blockEnd) (pure enclosing)
      (fun ends => readNodes tags steps trail ends enclosing)
      (fun name => readNodes tags steps trail ["endblock"] (some name))
      (fun line otherwise => readBranches tags steps trail line otherwise enclosing) tag line

def readBranches (tags : TagSet) :
    Nat → List Visit → Nat → Option (List Node) → Option String →
      Reader (List Branch × Option (List Node))
  | 0, _, _, _, _ => lift Expr.stop
  | steps + 1, trail, line, otherwise, enclosing => do
    let trail ← enter .branches trail
    Grammar.branches lift (lastExpression trail) (within blockEnd)
      (fun ends => readNodes tags steps trail ends enclosing)
      (fun line otherwise => readBranches tags steps trail line otherwise enclosing) line otherwise

end

/-- Reads a whole document, and gives all visits made on the way, the latest first. -/
def read (tags : TagSet) (stream : TokenStream) : Except SyntaxError Document × List (List Visit) :=
  match readNodes tags (stepLimit stream.after.length) [] [] none ⟨⟨stream, []⟩, []⟩ with
  | .ok nodes state => (.ok ⟨stream.source, nodes⟩, state.log)
  | .error e state => (.error e, state.log)

end TracedParser

end Document

end TemplateEngine
