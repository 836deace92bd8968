import TemplateEngine.Decimal.Layout
import TemplateEngine.Decimal.Reader
import TemplateEngine.Json.Printer
import TemplateEngine.Text.Blank

/-!
How values are taken as texts, numbers, conditions and keys, and when two of them count as equal.
-/

namespace TemplateEngine.Render

/-- The double nearest to an integer or equal to a number; other values have none. -/
def double? : Json → Option Float
  | .int n => some (Decimal.ofInteger n)
  | .float x => some x
  | _ => none

/-- The value of a computed number: an integer when it is one below `10 ^ 15`, nothing when it is
not finite. -/
def ofFloat (x : Float) : Json :=
  match Decimal.exactInteger? x with
  | some n => .int n
  | none => if x.isFinite then .float x else .null

/-- The printed form of a value: nothing for an absent or false one, JSON for a compound one. -/
def toText : Json → String
  | .null => ""
  | .bool value => if value then "1" else ""
  | .int n => Decimal.plainText (Decimal.ofInteger n)
  | .float x => Decimal.plainText x
  | .string s => s
  | .array items => (Json.array items).toText
  | .object fields => (Json.object fields).toText

def isTruthy : Json → Bool
  | .null => false
  | .bool value => value
  | .int n => n != 0
  | .float x => x != 0
  | .string s => s != "" && s != "0"
  | .array items => !items.isEmpty
  | .object fields => !fields.isEmpty

def isEmpty : Json → Bool
  | .null => true
  | .string s => s == ""
  | .array items => items.isEmpty
  | .object fields => fields.isEmpty
  | _ => false

def length : Json → Nat
  | .null => 0
  | .array items => items.length
  | .object fields => fields.length
  | value => (toText value).length

def trimText (text : String) : String :=
  String.ofList (Text.trimBlank text.toList)

inductive OperandFault where
  | unsupportedText (text : String)
  | unsupportedType
  | divisionByZero
  deriving Repr, DecidableEq

def toNumber : Json → Except OperandFault Float
  | .null => .ok 0
  | .bool value => .ok (if value then 1 else 0)
  | .int n => .ok (Decimal.ofInteger n)
  | .float x => .ok x
  | .string s =>
    match Decimal.read? (Text.trimBlank s.toList) with
    | some x => .ok x
    | none => .error (.unsupportedText s)
  | .array _ => .error .unsupportedType
  | .object _ => .error .unsupportedType

/-- Whether two values count as equal: numbers by their size, a number and a text by their texts,
other values by structure. -/
def looseEq (a b : Json) : Bool :=
  match double? a, double? b with
  | some x, some y => x == y
  | some _, none =>
    match b with
    | .string t => toText a == t
    | _ => false
  | none, some _ =>
    match a with
    | .string s => s == toText b
    | _ => false
  | none, none => a.same b

def occursIn (part : List Char) : List Char → Bool
  | [] => part.isEmpty
  | c :: cs => part.isPrefixOf (c :: cs) || occursIn part cs

/-- Whether a value is among the items of an array, in a text, or a key of an object. -/
def contains (haystack needle : Json) : Bool :=
  match haystack with
  | .array items => items.any (looseEq · needle)
  | .string s => occursIn (toText needle).toList s.toList
  | .object fields => (fields.lookup (toText needle)).isSome
  | _ => false

/-- The place that a text gives in an array: digits, after at most a plus, of a number of 64
bits. -/
def index? (text : String) : Option Nat :=
  let cs := text.toList
  let digits :=
    match cs with
    | '+' :: rest => rest
    | _ => cs
  if digits.isEmpty || !digits.all Char.isDigit then none
  else
    let n := Decimal.digitsValue 0 digits
    if n < Decimal.power 2 64 then some n else none

/-- The part of a value under a key, if it has one. -/
def item? (object key : Json) : Option Json :=
  match object, key with
  | .object fields, key => fields.lookup (toText key)
  | .array items, .int n => if 0 ≤ n then items[n.toNat]? else none
  | .array items, .string s => (index? s).bind fun n => items[n]?
  | _, _ => none

end TemplateEngine.Render
