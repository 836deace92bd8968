import TemplateEngine.Document
import TemplateEngine.Filter
import TemplateEngine.Render.Coercion
import TemplateEngine.Render.Escape
import TemplateEngine.Text.Case

/-!
Rendering documents with the values of a context. Inner scopes hide the names of outer ones, and
every printed value is escaped unless it is marked as safe.
-/

namespace TemplateEngine

inductive RenderError where
  | undefinedVariable (name : String) (line : Nat)
  | undefinedKey (key : String) (line : Nat)
  | unknownFilter (name : String) (line : Nat)
  | invalidOperand (fault : Render.OperandFault) (line : Nat)
  deriving Repr, DecidableEq

namespace RenderError

def line : RenderError → Nat
  | undefinedVariable _ line => line
  | undefinedKey _ line => line
  | unknownFilter _ line => line
  | invalidOperand _ line => line

/-- Whether the error is about a name or key that a default can stand in for. -/
def isUndefined : RenderError → Bool
  | undefinedVariable _ _ => true
  | undefinedKey _ _ => true
  | _ => false

def message : RenderError → String
  | undefinedVariable name _ => "Variable \"" ++ name ++ "\" does not exist"
  | undefinedKey key _ => "Key \"" ++ key ++ "\" does not exist"
  | unknownFilter name _ => "Unknown \"" ++ name ++ "\" filter"
  | invalidOperand (.unsupportedText text) _ => "Unsupported operand \"" ++ text ++ "\""
  | invalidOperand .unsupportedType _ => "Unsupported operand type"
  | invalidOperand .divisionByZero _ => "Division by zero"

def display (e : RenderError) : String :=
  e.message ++ " at line " ++ Nat.repr e.line ++ "."

end RenderError

namespace Render

structure Options where
  autoescape : Bool := true
  strict : Bool := false
  deriving Repr, DecidableEq

abbrev Scope := List (String × Json)

structure Evaluated where
  value : Json
  safe : Bool

/-- A value that must be escaped when it is printed. -/
def plain (value : Json) : Evaluated :=
  ⟨value, false⟩

def find? (scopes : List Scope) (name : String) : Option Json :=
  scopes.findSome? fun scope => scope.lookup name

/-- The part of a value under a key. A missing part is an absent value, or an error when undefined
keys are. -/
def getItem (options : Options) (object key : Json) (line : Nat) : Except RenderError Json :=
  match item? object key with
  | some value => .ok value
  | none => if options.strict then .error (.undefinedKey (toText key) line) else .ok .null

def operand (value : Json) (line : Nat) : Except RenderError Float :=
  (toNumber value).mapError fun fault => .invalidOperand fault line

def applyUnary (op : UnaryOp) (value : Json) (line : Nat) : Except RenderError Json :=
  match op with
  | .not => .ok (.bool !(isTruthy value))
  | .neg => (operand value line).map fun x => ofFloat (-x)
  | .pos => (operand value line).map ofFloat

/-- Compares two texts by their characters and all other values as numbers. -/
def compare (texts : String → String → Bool) (numbers : Float → Float → Bool) (left right : Json)
    (line : Nat) : Except RenderError Json :=
  match left, right with
  | .string s, .string t => .ok (.bool (texts s t))
  | left, right => do
    let x ← operand left line
    let y ← operand right line
    return .bool (numbers x y)

def arithmetic (compute : Float → Float → Float) (left right : Json) (line : Nat) :
    Except RenderError Json := do
  let x ← operand left line
  let y ← operand right line
  return ofFloat (compute x y)

def division (compute : Float → Float → Float) (left right : Json) (line : Nat) :
    Except RenderError Json := do
  let x ← operand left line
  let y ← operand right line
  if y == 0 then throw (.invalidOperand .divisionByZero line)
  return ofFloat (compute x y)

def applyBinary (op : BinaryOp) (left right : Json) (line : Nat) : Except RenderError Json :=
  match op with
  | .or => .ok (.bool (isTruthy left || isTruthy right))
  | .and => .ok (.bool (isTruthy left && isTruthy right))
  | .eq => .ok (.bool (looseEq left right))
  | .notEq => .ok (.bool !(looseEq left right))
  | .lt => compare (· < ·) (· < ·) left right line
  | .gt => compare (· > ·) (· > ·) left right line
  | .ltEq => compare (· ≤ ·) (· ≤ ·) left right line
  | .gtEq => compare (· ≥ ·) (· ≥ ·) left right line
  | .isIn => .ok (.bool (contains right left))
  | .notIn => .ok (.bool !(contains right left))
  | .concat => .ok (.string (toText left ++ toText right))
  | .add => arithmetic (· + ·) left right line
  | .sub => arithmetic (· - ·) left right line
  | .mul => arithmetic (· * ·) left right line
  | .div => division (· / ·) left right line
  | .floorDiv => division (fun x y => (x / y).floor) left right line
  | .mod => division Decimal.remainder left right line
  | .pow => arithmetic Float.pow left right line

def shortCircuit? (op : BinaryOp) (left : Json) : Option Json :=
  match op with
  | .or => if isTruthy left then some (.bool true) else none
  | .and => if isTruthy left then none else some (.bool false)
  | _ => none

def itemTexts : Json → List String
  | .array items => items.map toText
  | .object fields => fields.map fun field => toText field.2
  | .null => []
  | value => [toText value]

def applyFilter (filter : Filter) (input : Evaluated) (args : List Json) : Evaluated :=
  match filter with
  | .upper => plain (.string (Text.upper (toText input.value)))
  | .lower => plain (.string (Text.lower (toText input.value)))
  | .trim => plain (.string (trimText (toText input.value)))
  | .length => plain (.int (Int.ofNat (length input.value)))
  | .join =>
    plain (.string ((toText (args.head?.getD .null)).intercalate (itemTexts input.value)))
  | .fallback => if isEmpty input.value then plain (args.head?.getD (.string "")) else input
  | .escape => if input.safe then input else ⟨.string (escape (toText input.value)), true⟩
  | .raw => ⟨input.value, true⟩

/-- The input of a filter. For a default, an undefined name or key is an absent value. -/
def filterInput (name : String) (input : Except RenderError Evaluated) :
    Except RenderError Evaluated :=
  match input with
  | .ok value => .ok value
  | .error e => if name = "default" ∧ e.isUndefined then .ok (plain .null) else .error e

mutual

def eval (options : Options) (scopes : List Scope) : Expr → Except RenderError Evaluated
  | .null _ => .ok (plain .null)
  | .bool _ value => .ok (plain (.bool value))
  | .number _ value => .ok (plain (ofFloat value))
  | .string _ value => .ok (plain (.string value))
  | .name line name =>
    match find? scopes name with
    | some value => .ok (plain value)
    | none => if options.strict then .error (.undefinedVariable name line) else .ok (plain .null)
  | .array _ items => do
    let items ← evalAll options scopes items
    return plain (.array items)
  | .attr line object member => do
    let object ← eval options scopes object
    let value ← getItem options object.value (.string member) line
    return plain value
  | .item line object index => do
    let object ← eval options scopes object
    let index ← eval options scopes index
    let value ← getItem options object.value index.value line
    return plain value
  | .unary line op operand => do
    let operand ← eval options scopes operand
    let value ← applyUnary op operand.value line
    return plain value
  | .binary line op left right => do
    let left ← eval options scopes left
    match shortCircuit? op left.value with
    | some value => return plain value
    | none =>
      let right ← eval options scopes right
      let value ← applyBinary op left.value right.value line
      return plain value
  | .filter line name input args => do
    let input ← filterInput name (eval options scopes input)
    let args ← evalAll options scopes args
    match Filter.ofName? name with
    | some filter => return applyFilter filter input args
    | none => throw (.unknownFilter name line)

def evalAll (options : Options) (scopes : List Scope) : List Expr → Except RenderError (List Json)
  | [] => .ok []
  | expr :: exprs => do
    let first ← eval options scopes expr
    let rest ← evalAll options scopes exprs
    return first.value :: rest

end

def printText (options : Options) (printed : Evaluated) : String :=
  if options.autoescape && !printed.safe then escape (toText printed.value)
  else toText printed.value

def loopItems : Json → List (Json × Json)
  | .array items => items.zipIdx.map fun (item, i) => (.int (Int.ofNat i), item)
  | .object fields => fields.map fun (name, value) => (.string name, value)
  | _ => []

def loopInfo (i length : Nat) : Json :=
  .object [("first", .bool (i == 0)), ("index", .int (Int.ofNat (i + 1))),
    ("index0", .int (Int.ofNat i)), ("last", .bool (i + 1 == length)),
    ("length", .int (Int.ofNat length))]

/-- The names of one iteration. `loop` hides a key of that name, and a key hides a target. -/
def loopScope (key : Option String) (target : String) (i length : Nat) (item : Json × Json) :
    Scope :=
  let own := [(target, item.2)]
  let keyed :=
    match key with
    | some key => (key, item.1) :: own
    | none => own
  ("loop", loopInfo i length) :: keyed

def repeatBody (body : Scope → Except RenderError String) : List Scope → Except RenderError String
  | [] => .ok ""
  | scope :: rest => do
    let first ← body scope
    let others ← repeatBody body rest
    return first ++ others

def loopScopes (key : Option String) (target : String) (items : List (Json × Json)) : List Scope :=
  items.zipIdx.map fun (item, i) => loopScope key target i items.length item

mutual

def renderNode (options : Options) (scopes : List Scope) : Node → Except RenderError String
  | .text _ text => .ok text
  | .print _ expr => (eval options scopes expr).map (printText options)
  | .choice _ branches otherwise => do
    match ← renderBranches options scopes branches with
    | some output => return output
    | none => renderOtherwise options scopes otherwise
  | .loop _ key target iterable body otherwise => do
    let iterable ← eval options scopes iterable
    match loopItems iterable.value with
    | [] => renderOtherwise options scopes otherwise
    | items =>
      repeatBody (fun scope => renderNodes options (scope :: scopes) body)
        (loopScopes key target items)
  | .block _ _ body => renderNodes options scopes body
  | .comment _ _ _ => .ok ""

def renderNodes (options : Options) (scopes : List Scope) : List Node → Except RenderError String
  | [] => .ok ""
  | node :: nodes => do
    let first ← renderNode options scopes node
    let rest ← renderNodes options scopes nodes
    return first ++ rest

/-- The output of the first branch whose condition holds, if there is one. -/
def renderBranches (options : Options) (scopes : List Scope) :
    List Branch → Except RenderError (Option String)
  | [] => .ok none
  | .mk condition body :: branches => do
    let condition ← eval options scopes condition
    if isTruthy condition.value then
      let output ← renderNodes options scopes body
      return some output
    else renderBranches options scopes branches

def renderOtherwise (options : Options) (scopes : List Scope) :
    Option (List Node) → Except RenderError String
  | none => .ok ""
  | some body => renderNodes options scopes body

end

/-- The outermost scope: the fields of a context that is an object. -/
def rootScope : Json → Scope
  | .object fields => fields
  | _ => []

/-- The output of a document with a context. -/
def ofDocument (options : Options) (document : Document) (context : Json) :
    Except RenderError String :=
  renderNodes options [rootScope context] document.nodes

end Render

end TemplateEngine
