import TemplateEngine.Decimal.Layout
import TemplateEngine.Expr
import TemplateEngine.Filter
import TemplateEngine.Script.Literal

/-!
Expressions as JavaScript. Names are looked up in the innermost scope object, which is numbered.
-/

namespace TemplateEngine

inductive ScriptError where
  | unknownFilter (name : String) (line : Nat)
  deriving Repr, DecidableEq

def ScriptError.display : ScriptError → String
  | unknownFilter name line =>
    "Codegen error: Unknown \"" ++ name ++ "\" filter at line " ++ Nat.repr line ++ "."

namespace Script

def scopeName (scope : Nat) : String :=
  "ctx" ++ Nat.repr scope

def call (function : String) (args : List String) : String :=
  "runtime." ++ function ++ "(" ++ ", ".intercalate args ++ ")"

def infixed (symbol left right : String) : String :=
  "(" ++ left ++ " " ++ symbol ++ " " ++ right ++ ")"

def unary : UnaryOp → String → String
  | .not, operand => "!" ++ call "test" [operand]
  | .neg, operand => "-(" ++ operand ++ ")"
  | .pos, operand => "+(" ++ operand ++ ")"

def binary (op : BinaryOp) (left right : String) : String :=
  match op with
  | .or => infixed "||" (call "test" [left]) (call "test" [right])
  | .and => infixed "&&" (call "test" [left]) (call "test" [right])
  | .isIn => call "contains" [right, left]
  | .notIn => "!" ++ call "contains" [right, left]
  | .concat => infixed "+" (call "str" [left]) (call "str" [right])
  | .floorDiv => "Math.floor(" ++ left ++ " / " ++ right ++ ")"
  | .eq => infixed "==" left right
  | .notEq => infixed "!=" left right
  | .lt => infixed "<" left right
  | .gt => infixed ">" left right
  | .ltEq => infixed "<=" left right
  | .gtEq => infixed ">=" left right
  | .add => infixed "+" left right
  | .sub => infixed "-" left right
  | .mul => infixed "*" left right
  | .div => infixed "/" left right
  | .mod => infixed "%" left right
  | .pow => infixed "**" left right

mutual

def ofExpr (scope : Nat) : Expr → Except ScriptError String
  | .null _ => .ok "null"
  | .bool _ value => .ok (if value then "true" else "false")
  | .number _ value => .ok (Decimal.plainText value)
  | .string _ value => .ok (literal value)
  | .name _ value => .ok (call "attr" [scopeName scope, literal value])
  | .array _ items => do
    let items ← ofExprs scope items
    return "[" ++ ", ".intercalate items ++ "]"
  | .attr _ object member => do
    let object ← ofExpr scope object
    return call "attr" [object, literal member]
  | .item _ object index => do
    let object ← ofExpr scope object
    let index ← ofExpr scope index
    return call "attr" [object, index]
  | .unary _ op operand => do
    let operand ← ofExpr scope operand
    return unary op operand
  | .binary _ op left right => do
    let left ← ofExpr scope left
    let right ← ofExpr scope right
    return binary op left right
  | .filter line name input args => do
    if name ∉ Filter.names then throw (.unknownFilter name line)
    let args ← ofExprs scope args
    let input ← ofExpr scope input
    return call "filter" [literal name, input, "[" ++ ", ".intercalate args ++ "]"]

def ofExprs (scope : Nat) : List Expr → Except ScriptError (List String)
  | [] => .ok []
  | expr :: exprs => do
    let script ← ofExpr scope expr
    let scripts ← ofExprs scope exprs
    return script :: scripts

end

end Script

end TemplateEngine
