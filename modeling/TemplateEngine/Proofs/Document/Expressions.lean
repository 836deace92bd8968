import TemplateEngine.Document

/-!
The expressions that stand in a document: those of print tags, conditions and loops, with the
expressions inside of them.
-/

namespace TemplateEngine

mutual

/-- An expression and the expressions inside of it. -/
def Expr.parts : Expr → List Expr
  | .null line => [.null line]
  | .bool line value => [.bool line value]
  | .number line value => [.number line value]
  | .string line value => [.string line value]
  | .name line value => [.name line value]
  | .array line items => .array line items :: partsOfExprs items
  | .attr line object member => .attr line object member :: object.parts
  | .item line object index => .item line object index :: (object.parts ++ index.parts)
  | .unary line op operand => .unary line op operand :: operand.parts
  | .binary line op left right => .binary line op left right :: (left.parts ++ right.parts)
  | .filter line name input args =>
    .filter line name input args :: (input.parts ++ partsOfExprs args)

def partsOfExprs : List Expr → List Expr
  | [] => []
  | expr :: exprs => expr.parts ++ partsOfExprs exprs

end

theorem Expr.mem_parts_self (expr : Expr) : expr ∈ expr.parts := by
  cases expr <;> simp [Expr.parts]

mutual

def Node.exprs : Node → List Expr
  | .text _ _ => []
  | .print _ expr => expr.parts
  | .choice _ branches otherwise => exprsOfBranches branches ++ exprsOfBody otherwise
  | .loop _ _ _ iterable body otherwise =>
    iterable.parts ++ (exprsOfNodes body ++ exprsOfBody otherwise)
  | .block _ _ body => exprsOfNodes body
  | .comment _ _ _ => []

def exprsOfNodes : List Node → List Expr
  | [] => []
  | node :: nodes => node.exprs ++ exprsOfNodes nodes

def exprsOfBranches : List Branch → List Expr
  | [] => []
  | .mk condition body :: branches =>
    condition.parts ++ (exprsOfNodes body ++ exprsOfBranches branches)

def exprsOfBody : Option (List Node) → List Expr
  | none => []
  | some body => exprsOfNodes body

end

/-- The expressions in a document, at every depth. -/
def Document.exprs (document : Document) : List Expr :=
  exprsOfNodes document.nodes

end TemplateEngine
