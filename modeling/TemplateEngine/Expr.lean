/-!
Expressions: what stands in print tags and in the arguments of other tags.
-/

namespace TemplateEngine

inductive UnaryOp where
  | not
  | neg
  | pos
  deriving Repr, DecidableEq

namespace UnaryOp

def ofText? : String → Option UnaryOp
  | "not" => some not
  | "-" => some neg
  | "+" => some pos
  | _ => none

def precedence : UnaryOp → Nat
  | not => 50
  | neg => 500
  | pos => 500

end UnaryOp

inductive BinaryOp where
  | or
  | and
  | eq
  | notEq
  | lt
  | gt
  | ltEq
  | gtEq
  | isIn
  | notIn
  | add
  | sub
  | concat
  | mul
  | div
  | floorDiv
  | mod
  | pow
  deriving Repr, DecidableEq

namespace BinaryOp

def ofText? : String → Option BinaryOp
  | "or" => some or
  | "and" => some and
  | "==" => some eq
  | "!=" => some notEq
  | "<" => some lt
  | ">" => some gt
  | "<=" => some ltEq
  | ">=" => some gtEq
  | "in" => some isIn
  | "not in" => some notIn
  | "+" => some add
  | "-" => some sub
  | "~" => some concat
  | "*" => some mul
  | "/" => some div
  | "//" => some floorDiv
  | "%" => some mod
  | "**" => some pow
  | _ => none

def precedence : BinaryOp → Nat
  | or => 10
  | and => 15
  | eq | notEq | lt | gt | ltEq | gtEq | isIn | notIn => 20
  | add | sub => 30
  | concat => 40
  | mul | div | floorDiv | mod => 60
  | pow => 200

def isRightAssociative : BinaryOp → Bool
  | pow => true
  | _ => false

/-- The least precedence of an operator in the right operand of this one. -/
def rightMinimum (op : BinaryOp) : Nat :=
  if op.isRightAssociative then op.precedence else op.precedence + 1

end BinaryOp

/-- An expression. Every part has the line of the token that makes it what it is. -/
inductive Expr where
  | null (line : Nat)
  | bool (line : Nat) (value : Bool)
  | number (line : Nat) (value : Float)
  | string (line : Nat) (value : String)
  | name (line : Nat) (value : String)
  | array (line : Nat) (items : List Expr)
  | attr (line : Nat) (object : Expr) (member : String)
  | item (line : Nat) (object index : Expr)
  | unary (line : Nat) (op : UnaryOp) (operand : Expr)
  | binary (line : Nat) (op : BinaryOp) (left right : Expr)
  | filter (line : Nat) (name : String) (input : Expr) (args : List Expr)
  deriving Inhabited

namespace Expr

def line : Expr → Nat
  | null line | bool line _ | number line _ | string line _ | name line _ | array line _
  | attr line _ _ | item line _ _ | unary line _ _ | binary line _ _ _ | filter line _ _ _ => line

def ofName (line : Nat) (word : String) : Expr :=
  if word = "true" ∨ word = "TRUE" then bool line true
  else if word = "false" ∨ word = "FALSE" then bool line false
  else if word = "null" ∨ word = "NULL" ∨ word = "none" ∨ word = "NONE" then null line
  else name line word

/-- Joins the parts of a string from the left. Without parts it is empty. -/
def concatAll (line : Nat) : List Expr → Expr
  | [] => string line ""
  | first :: rest => rest.foldl (fun left right => binary line .concat left right) first

end Expr

end TemplateEngine
