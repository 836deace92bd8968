/-!
JSON values. Integers and doubles are told apart, and the fields of an object are kept in the order
of their names.
-/

namespace TemplateEngine

/-- A JSON value. A number written without fraction and exponent is an integer. -/
inductive Json where
  | null
  | bool (value : Bool)
  | int (value : Int)
  | float (value : Float)
  | string (value : String)
  | array (items : List Json)
  | object (fields : List (String × Json))
  deriving Inhabited

namespace Json

abbrev Fields := List (String × Json)

/-- Puts a field in its place by name, instead of a field that has this name already. -/
def Fields.insert (name : String) (value : Json) : Fields → Fields
  | [] => [(name, value)]
  | field :: rest =>
    if name < field.1 then (name, value) :: field :: rest
    else if name = field.1 then (name, value) :: rest
    else field :: Fields.insert name value rest

def Fields.ofList (fields : List (String × Json)) : Fields :=
  fields.foldl (fun sorted field => Fields.insert field.1 field.2 sorted) []

def ofFields (fields : List (String × Json)) : Json :=
  object (Fields.ofList fields)

def field? (name : String) : Json → Option Json
  | object fields => fields.lookup name
  | _ => none

mutual

def canonical : Json → Json
  | array items => array (canonicalItems items)
  | object fields => ofFields (canonicalFields fields)
  | value => value

def canonicalItems : List Json → List Json
  | [] => []
  | item :: items => canonical item :: canonicalItems items

def canonicalFields : List (String × Json) → List (String × Json)
  | [] => []
  | (name, value) :: fields => (name, canonical value) :: canonicalFields fields

end

mutual

/-- Equality of values. An integer differs from every double, and doubles are compared as
numbers. -/
def same : Json → Json → Bool
  | null, null => true
  | bool a, bool b => a == b
  | int a, int b => a == b
  | float a, float b => a == b
  | string a, string b => a == b
  | array a, array b => sameItems a b
  | object a, object b => sameFields a b
  | _, _ => false

def sameItems : List Json → List Json → Bool
  | [], [] => true
  | a :: as, b :: bs => same a b && sameItems as bs
  | _, _ => false

def sameFields : List (String × Json) → List (String × Json) → Bool
  | [], [] => true
  | (m, a) :: as, (n, b) :: bs => m == n && same a b && sameFields as bs
  | _, _ => false

end

end Json

end TemplateEngine
