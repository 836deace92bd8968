import TemplateEngine.Text.CaseTable

/-!
Upper and lower case of a whole text, with the full mappings: one character may become several, and
a capital sigma at the end of a word has a lower-case form of its own.
-/

namespace TemplateEngine.Text

def CaseRun.image? (run : CaseRun) (n : Nat) : Option Nat :=
  if run.first ≤ n && n ≤ run.last && (n - run.first) % run.step == 0 then
    some (n + run.shift).toNat
  else none

def mapCase (runs : List CaseRun) (sequences : List (Nat × List Nat)) (c : Char) : List Char :=
  match sequences.lookup c.toNat with
  | some image => image.map Char.ofNat
  | none =>
    match runs.findSome? (·.image? c.toNat) with
    | some n => [Char.ofNat n]
    | none => [c]

def inRanges (ranges : List (Nat × Nat)) (c : Char) : Bool :=
  ranges.any fun range => range.1 ≤ c.toNat && c.toNat ≤ range.2

/-- Whether the first character that can decide the case of its word is a cased one. -/
def startsCased (cs : List Char) : Bool :=
  match cs.dropWhile (inRanges caseIgnorableRanges) with
  | [] => false
  | c :: _ => inRanges casedRanges c

/-- Lower case of a text whose characters in front are `before`, nearest first: a capital sigma
is final when a cased character stands before it and none after it. -/
def lowerFrom (before : List Char) : List Char → List Char
  | [] => []
  | c :: cs =>
    (if c == 'Σ' then
        if startsCased before && !startsCased cs then ['ς'] else ['σ']
      else mapCase lowerRuns lowerSequences c) ++ lowerFrom (c :: before) cs

def upper (text : String) : String :=
  String.ofList (text.toList.flatMap (mapCase upperRuns upperSequences))

def lower (text : String) : String :=
  String.ofList (lowerFrom [] text.toList)

end TemplateEngine.Text
