import TemplateEngine.Lexer.Options
import TemplateEngine.Lexer.Pattern

/-!
What a lexer recognises under given settings: delimiters that are not empty, operators with the
longest first, and the openers and closers of tags with the white space they take along.
-/

namespace TemplateEngine.Lexer

open Text

structure Delimiters where
  opening : List Char
  closing : List Char
  opening_ne_nil : opening ≠ []
  closing_ne_nil : closing ≠ []

/-- The delimiters of a pair of texts, unless one is empty. -/
def Delimiters.ofPair? (pair : String × String) : Option Delimiters :=
  if h : pair.1.toList ≠ [] ∧ pair.2.toList ≠ [] then
    some ⟨pair.1.toList, pair.2.toList, h.1, h.2⟩
  else none

/-- An operator of one or more words. A word of letters must not touch a name. -/
structure Operator where
  words : List (List Char)
  startsWithLetter : Bool
  endsWithLetter : Bool
  words_ne_nil : words ≠ []
  ne_nil_of_mem_words : ∀ w ∈ words, w ≠ []

/-- The operator with a given spelling, unless it is blank. -/
def Operator.ofText? (text : String) : Option Operator :=
  let cs := text.toList
  if h : Text.words cs ≠ [] then
    some
      { words := Text.words cs
        startsWithLetter := cs.head?.any Char.isAlpha
        endsWithLetter := cs.getLast?.any Char.isAlpha
        words_ne_nil := h
        ne_nil_of_mem_words := fun _ hw => (mem_words hw).1 }
  else none

/-- The text of an operator, with one space between its words. -/
def Operator.value (operator : Operator) : List Char :=
  [' '].intercalate operator.words

/-- Whether a word operator may stand next to this character. -/
def isBoundary (c : Char) : Bool :=
  isBlank c || c == '(' || c == ')' || c == '[' || c == '\x7b'

/-- The length of words at the front of a text, with white space between each two. -/
def wordsLength? : List (List Char) → List Char → Option Nat
  | [], _ => some 0
  | [word], cs => if word.isPrefixOf cs then some word.length else none
  | word :: rest, cs =>
    if word.isPrefixOf cs then
      let gap := ((cs.drop word.length).takeWhile isBlank).length
      if gap = 0 then none
      else (wordsLength? rest (cs.drop (word.length + gap))).map (word.length + gap + ·)
    else none

/-- The length of an operator at the front of a text that follows the character `previous`. -/
def Operator.length? (operator : Operator) (previous : Option Char) (cs : List Char) : Option Nat :=
  match wordsLength? operator.words cs with
  | none => none
  | some n =>
    if operator.startsWithLetter && previous.any (!isBoundary ·) then none
    else if operator.endsWithLetter && !(cs.drop n).head?.any isBoundary then none
    else some n

/-- Puts a spelling in front of all that are not longer, measured in bytes. -/
def insertBySize (text : String) : List String → List String
  | [] => [text]
  | other :: rest =>
    if other.utf8ByteSize ≤ text.utf8ByteSize then text :: other :: rest
    else other :: insertBySize text rest

/-- Orders spellings by size, the largest first; those of one size stay in order. -/
def longestFirst (texts : List String) : List String :=
  texts.foldr insertBySize []

inductive Trim where
  /-- Spaces and line breaks. -/
  | all
  /-- Spaces up to a line break. -/
  | line
  deriving Repr, DecidableEq

def isLineBlank (c : Char) : Bool :=
  c == ' ' || c == '\t' || c == '\x00' || c == '\x0B'

def Trim.drops : Trim → Char → Bool
  | all, c => isLineBlank c || c == '\n' || c == '\r'
  | line, c => isLineBlank c

def trimBefore : Option Trim → List Char → List Char
  | none, cs => cs
  | some trim, cs => trimEnd trim.drops cs

structure Rules where
  comment : Delimiters
  block : Delimiters
  print : Delimiters
  interpolation : Delimiters
  trim : Char
  lineTrim : Char
  operators : List Operator

/-- The rules of the given settings, unless a delimiter is empty. -/
def Rules.ofOptions? (options : Options) : Option Rules := do
  return {
    comment := ← Delimiters.ofPair? options.comment
    block := ← Delimiters.ofPair? options.block
    print := ← Delimiters.ofPair? options.print
    interpolation := ← Delimiters.ofPair? options.interpolation
    trim := options.trim
    lineTrim := options.lineTrim
    operators := (longestFirst options.operators).filterMap Operator.ofText? }

namespace Rules

/-- The operator at the front of a text, with its length: the first one that matches. -/
def operator? (r : Rules) (previous : Option Char) (cs : List Char) : Option (Operator × Nat) :=
  r.operators.findSome? fun operator =>
    (operator.length? previous cs).map fun n => (operator, n)

def trimMark? (r : Rules) : List Char → Option Trim
  | [] => none
  | c :: _ => if c == r.trim then some .all else if c == r.lineTrim then some .line else none

def markText (r : Rules) : Option Trim → List Char
  | none => []
  | some .all => [r.trim]
  | some .line => [r.lineTrim]

/-- A closing delimiter: with the trim mark and all white space behind it, with the mark for a line
and the white space of that line, or alone; a plain one may take along one line break. -/
def closing (r : Rules) (delimiter : List Char) (takesBreak : Bool) : Pattern :=
  .orElse (.andThen (.literal (r.trim :: delimiter)) (.run isBlank)) <|
  .orElse (.andThen (.literal (r.lineTrim :: delimiter)) (.run isLineBlank)) <|
  if takesBreak then .andThen (.literal delimiter) (.optional (.literal ['\n']))
  else .literal delimiter

def blockClose (r : Rules) : Pattern :=
  .andThen (.run isBlank) (r.closing r.block.closing true)

def printClose (r : Rules) : Pattern :=
  .andThen (.run isBlank) (r.closing r.print.closing false)

def commentClose (r : Rules) : Pattern :=
  r.closing r.comment.closing true

def wordTag (r : Rules) (word : String) : Pattern :=
  .andThen (.run isBlank) <| .andThen (.literal word.toList) <|
  .andThen (.run isBlank) (r.closing r.block.closing false)

/-- The tag that ends a verbatim block: how it trims the text in front of it, and its length. A mark
is taken for one only if the rest of the tag follows. -/
def verbatimEnd? (r : Rules) (cs : List Char) : Option (Option Trim × Nat) :=
  [some .all, some .line, none].findSome? fun trim =>
    let pattern :=
      Pattern.andThen (.literal (r.block.opening ++ r.markText trim)) (r.wordTag "endverbatim")
    (pattern.length? cs).map fun n => (trim, n)

def interpolationStart (r : Rules) : Pattern :=
  .andThen (.literal r.interpolation.opening) (.run isBlank)

def interpolationEnd (r : Rules) : Pattern :=
  .andThen (.run isBlank) (.literal r.interpolation.closing)

end Rules

inductive TagKind where
  | comment
  | block
  | print
  deriving Repr, DecidableEq

structure TagStart where
  offset : Nat
  length : Nat
  kind : TagKind
  trim : Option Trim
  deriving Repr, DecidableEq

namespace Rules

def delimiters (r : Rules) : TagKind → Delimiters
  | .comment => r.comment
  | .block => r.block
  | .print => r.print

/-- The kind of tag that an opening delimiter stands for when several are spelled alike. -/
def kindOf (r : Rules) (opening : List Char) : TagKind :=
  if opening == r.comment.opening then .comment
  else if opening == r.block.opening then .block
  else .print

/-- The tag start at the front of a text that stands at `offset`. -/
def tagStart? (r : Rules) (offset : Nat) (cs : List Char) : Option TagStart :=
  let openings := [r.print.opening, r.block.opening, r.comment.opening]
  (openings.find? (·.isPrefixOf cs)).map fun opening =>
    let trim := r.trimMark? (cs.drop opening.length)
    ⟨offset, opening.length + (r.markText trim).length, r.kindOf opening, trim⟩

/-- The tag starts in a text that stands at `offset`, from left to right and without overlaps; the
first `skip` characters belong to a tag start already found. -/
def tagStartsFrom (r : Rules) : Nat → Nat → List Char → List TagStart
  | _, _, [] => []
  | skip + 1, offset, _ :: cs => tagStartsFrom r skip (offset + 1) cs
  | 0, offset, c :: cs =>
    match r.tagStart? offset (c :: cs) with
    | some start => start :: tagStartsFrom r (start.length - 1) (offset + 1) cs
    | none => tagStartsFrom r 0 (offset + 1) cs

def tagStarts (r : Rules) (cs : List Char) : List TagStart :=
  r.tagStartsFrom 0 0 cs

end Rules

end TemplateEngine.Lexer
