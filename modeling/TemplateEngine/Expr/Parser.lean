import TemplateEngine.Decimal.Reader
import TemplateEngine.Expr
import TemplateEngine.TokenStream

/-!
Reading expressions from tokens, by precedence. Each rule of the grammar is written in terms of the
routines that it calls, in any monad that tokens can be read in. The functions that read tie the
rules together and take at most the given number of steps down; `Expr.read` gives as many as the
tokens ahead can need.
-/

namespace TemplateEngine

namespace Expr

open TokenReader

def binaryOp? (token : Token) : Option BinaryOp :=
  if token.kind = .operator then BinaryOp.ofText? token.value else none

def unaryOp? (token : Token) : Option UnaryOp :=
  if token.kind = .operator then UnaryOp.ofText? token.value else none

def isMark (token : Token) (mark : String) : Bool :=
  token.kind == .punctuation && token.value == mark

def stop {α : Type} : TokenReader α := do
  fail .outOfSteps (← current).line

def readNumber : TokenReader Expr := do
  let token ← next
  match Decimal.read? token.value.toList with
  | some value => return number token.line value
  | none => fail (.invalidNumber token.value) token.line

def readMember : TokenReader String := do
  let token ← current
  if token.kind = .name ∨ token.kind = .number then
    let _ ← next
    return token.value
  else fail (.missingMember token.kind) token.line

end Expr

namespace Grammar

open TokenReader

variable {m : Type → Type} [Monad m] (lift : {α : Type} → TokenReader α → m α)

/-- An operand and the operators behind it that bind at least as tightly as `minimum`. -/
def expression (operand : m Expr) (operators : Nat → Expr → m Expr) (minimum : Nat) : m Expr := do
  let left ← operand
  operators minimum left

def operators (expression : Nat → m Expr) (operators : Nat → Expr → m Expr) (minimum : Nat)
    (left : Expr) : m Expr := do
  let token ← lift current
  match Expr.binaryOp? token with
  | none => return left
  | some op =>
    if op.precedence < minimum then return left
    else
      let _ ← lift next
      let right ← expression op.rightMinimum
      operators minimum (.binary token.line op left right)

def operand (expression : Nat → m Expr) (primary : m Expr) (accesses : Expr → m Expr) : m Expr := do
  let token ← lift current
  match Expr.unaryOp? token with
  | some op =>
    let _ ← lift next
    let operand ← expression op.precedence
    return .unary token.line op operand
  | none =>
    let primary ← primary
    accesses primary

def primary (expression : Nat → m Expr) (parts items : Bool → m (List Expr)) : m Expr := do
  let token ← lift current
  match token.kind with
  | .name =>
    let _ ← lift next
    return Expr.ofName token.line token.value
  | .number => lift Expr.readNumber
  | .string | .interpolationStart =>
    let parts ← parts true
    return Expr.concatAll token.line parts
  | _ =>
    if Expr.isMark token "(" then
      let _ ← lift next
      let inner ← expression 0
      let _ ← lift (expect .punctuation (some ")"))
      return inner
    else if Expr.isMark token "[" then
      let _ ← lift next
      let items ← items true
      let _ ← lift (expect .punctuation (some "]"))
      return .array token.line items
    else lift (fail (.unexpectedToken token.kind token.value) token.line)

/-- The parts of a string: plain text and interpolated expressions. Two plain texts do not follow
each other. -/
def parts (expression : Nat → m Expr) (parts : Bool → m (List Expr)) (plainMayFollow : Bool) :
    m (List Expr) := do
  let plain? ← if plainMayFollow then lift (nextIf .string none) else pure none
  match plain? with
  | some token =>
    let parts ← parts false
    return .string token.line token.value :: parts
  | none =>
    match ← lift (nextIf .interpolationStart none) with
    | some _ =>
      let inner ← expression 0
      let _ ← lift (expect .interpolationEnd none)
      let parts ← parts true
      return inner :: parts
    | none => return []

/-- The items of an array up to its closing bracket; a comma may follow the last one. -/
def items (expression : Nat → m Expr) (items : Bool → m (List Expr)) (isFirst : Bool) :
    m (List Expr) := do
  if ← lift (test .punctuation (some "]")) then return []
  else
    if !isFirst then
      let _ ← lift (expect .punctuation (some ","))
    if ← lift (test .punctuation (some "]")) then return []
    else
      let item ← expression 0
      let items ← items false
      return item :: items

def arguments (expression : Nat → m Expr) (arguments : Bool → m (List Expr)) (isFirst : Bool) :
    m (List Expr) := do
  if ← lift (test .punctuation (some ")")) then return []
  else
    if !isFirst then
      let _ ← lift (expect .punctuation (some ","))
    let arg ← expression 0
    let args ← arguments false
    return arg :: args

def accesses (expression : Nat → m Expr) (arguments : Bool → m (List Expr))
    (accesses : Expr → m Expr) (object : Expr) : m Expr := do
  let token ← lift current
  if Expr.isMark token "." then
    let _ ← lift next
    let member ← lift Expr.readMember
    accesses (.attr token.line object member)
  else if Expr.isMark token "[" then
    let _ ← lift next
    let index ← expression 0
    let _ ← lift (expect .punctuation (some "]"))
    accesses (.item token.line object index)
  else if Expr.isMark token "|" then
    let _ ← lift next
    let name ← lift (expect .name none)
    if ← lift (test .punctuation (some "(")) then
      let _ ← lift next
      let args ← arguments true
      let _ ← lift (expect .punctuation (some ")"))
      accesses (.filter token.line name.value object args)
    else accesses (.filter token.line name.value object [])
  else return object

end Grammar

namespace Expr

open TokenReader

mutual

def readFrom : Nat → Nat → TokenReader Expr
  | 0, _ => stop
  | steps + 1, minimum => Grammar.expression (readOperand steps) (readTail steps) minimum

def readTail : Nat → Nat → Expr → TokenReader Expr
  | 0, _, _ => stop
  | steps + 1, minimum, left =>
    Grammar.operators (fun reader => reader) (readFrom steps) (readTail steps) minimum left

def readOperand : Nat → TokenReader Expr
  | 0 => stop
  | steps + 1 =>
    Grammar.operand (fun reader => reader) (readFrom steps) (readPrimary steps) (readPostfix steps)

def readPrimary : Nat → TokenReader Expr
  | 0 => stop
  | steps + 1 =>
    Grammar.primary (fun reader => reader) (readFrom steps) (readParts steps) (readItems steps)

def readParts : Nat → Bool → TokenReader (List Expr)
  | 0, _ => stop
  | steps + 1, plainMayFollow =>
    Grammar.parts (fun reader => reader) (readFrom steps) (readParts steps) plainMayFollow

def readItems : Nat → Bool → TokenReader (List Expr)
  | 0, _ => stop
  | steps + 1, isFirst =>
    Grammar.items (fun reader => reader) (readFrom steps) (readItems steps) isFirst

def readArguments : Nat → Bool → TokenReader (List Expr)
  | 0, _ => stop
  | steps + 1, isFirst =>
    Grammar.arguments (fun reader => reader) (readFrom steps) (readArguments steps) isFirst

def readPostfix : Nat → Expr → TokenReader Expr
  | 0, _ => stop
  | steps + 1, object =>
    Grammar.accesses (fun reader => reader) (readFrom steps) (readArguments steps)
      (readPostfix steps) object

end

/-- A number of steps that suffices for any expression in `n` tokens. -/
def stepLimit (n : Nat) : Nat :=
  6 * n + 6

/-- Reads one expression and leaves the stream behind it. -/
def read : TokenReader Expr := do
  readFrom (stepLimit ((← get).after.length)) 0

end Expr

end TemplateEngine
