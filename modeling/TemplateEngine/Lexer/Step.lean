import TemplateEngine.Lexer.State
import TemplateEngine.Lexer.Word

/-!
The steps of a lexer. Each reads one piece at the front of the text by the rules of the innermost
open part, and gives its tokens with the state behind it.
-/

namespace TemplateEngine.Lexer

inductive Comments where
  | keep
  | drop
  deriving Repr, DecidableEq

abbrev Piece := List Token × State

abbrev EndSearch := List Char → Option (List Char × Nat)

def realSearch (r : Rules) : EndSearch :=
  findFirst? r.commentClose.length?

/-- The search that finds nothing, so that every comment stays open. -/
def armedSearch : EndSearch :=
  findFirst? Pattern.never.length?

inductive DataPiece where
  | lexed (piece : Piece)
  | openComment (piece : Piece)

def DataPiece.after (tokens : List Token) : DataPiece → DataPiece
  | lexed (more, s) => lexed (tokens ++ more, s)
  | openComment (more, s) => openComment (tokens ++ more, s)

def verbatimStep (r : Rules) (s : State) : Except Located Piece :=
  match findFirst? r.verbatimEnd? s.rest with
  | none => .error (.unclosedVerbatim, s.line)
  | some (body, trim, n) => .ok (s.textTokens (trimBefore trim body), s.advance (body.length + n))

def enterTag (nesting : Nesting) (kind : TokenKind) (opening : List Char) (s : State) : Piece :=
  ([s.token kind opening], { s.enter nesting with tagLine := s.line })

/-- Reads what follows an opening delimiter. A comment is passed over if the search finds its
end. -/
def tagStep (r : Rules) (search : EndSearch) (kind : TagKind) (s : State) :
    Except Located DataPiece :=
  match kind with
  | .comment =>
    match search s.rest with
    | none => .ok (.openComment ([], s))
    | some (body, n) => .ok (.lexed ([], s.advance (body.length + n)))
  | .print => .ok (.lexed (enterTag .print .varStart r.print.opening s))
  | .block =>
    match (r.wordTag "verbatim").length? s.rest with
    | some n => (verbatimStep r (s.advance n)).map .lexed
    | none => .ok (.lexed (enterTag .block .blockStart r.block.opening s))

/-- Reads text up to the next tag start and what follows it, or up to the end of the template. -/
def dataStep (r : Rules) (search : EndSearch) (s : State) : Except Located DataPiece :=
  match s.tags.dropWhile (·.offset < s.offset) with
  | [] => .ok (.lexed (s.textTokens s.rest, s.advance s.rest.length))
  | start :: later =>
    let n := start.offset - s.offset
    let tokens := s.textTokens (trimBefore start.trim (s.rest.take n))
    (tagStep r search start.kind { s.advance (n + start.length) with tags := later }).map
      (·.after tokens)

/-- Reads a comment that is kept, behind its opening delimiter. Its tokens are those of a tag
`comment` with the body as text. -/
def commentStep (r : Rules) (s : State) : Except Located Piece :=
  match realSearch r s.rest with
  | none => .error (.unclosedComment, s.line)
  | some (body, n) =>
    .ok
      ([s.token .blockStart r.comment.opening, s.token .name "comment".toList, s.token .text body,
          s.token .blockEnd r.comment.closing],
        (s.advance (body.length + n)).leave)

/-- The fault of a tag that is still open, at its own line. -/
def unclosedTag (s : State) : Located :=
  (.unclosed (if s.nesting.head? = some .block then "block" else "variable"), s.tagLine)

def isPunctuation (c : Char) : Bool :=
  "()[]\x7b\x7d?:.,|".toList.contains c

def bracketOf? : Char → Option Char
  | ')' => some '('
  | ']' => some '['
  | '\x7d' => some '\x7b'
  | _ => none

/-- Reads a punctuation character. A closing bracket must close the innermost open one. -/
def punctuationStep (c : Char) (s : State) : Except Located Piece :=
  let piece (s : State) : Piece := ([s.token .punctuation [c]], s.advance 1)
  match bracketOf? c with
  | some opener =>
    match s.brackets with
    | [] => .error (.unexpectedCloser c, s.line)
    | innermost :: outer =>
      if innermost.opener == [opener] then .ok (piece { s with brackets := outer })
      else .error (.unclosed (String.ofList innermost.opener), innermost.line)
  | none =>
    if c == '(' || c == '[' || c == '\x7b' then .ok (piece (s.openBracket [c])) else .ok (piece s)

/-- Reads an operator, name, number, punctuation character or string at the front of the text. A
double quote that begins no plain literal opens a string with interpolations. -/
def wordStep (r : Rules) (c : Char) (s : State) : Except Located Piece :=
  match r.operator? s.previous s.rest with
  | some (operator, n) => .ok ([s.token .operator operator.value], s.advance n)
  | none =>
    let name := nameLength s.rest
    let number := numberLength s.rest
    if name ≠ 0 then .ok ([s.token .name (s.rest.take name)], s.advance name)
    else if number ≠ 0 then .ok ([s.token .number (s.rest.take number)], s.advance number)
    else if isPunctuation c then punctuationStep c s
    else
      match stringLiteral? s.rest with
      | some body => .ok ([s.token .string (unescape body)], s.advance (body.length + 2))
      | none =>
        if c == '"' then .ok ([], ((s.openBracket ['"']).enter .string).advance 1)
        else .error (.unexpectedCharacter c, s.line)

/-- Passes over white space and reads one piece of an expression behind it. -/
def expressionStep (r : Rules) (s : State) : Except Located Piece :=
  let blank := (s.rest.takeWhile Text.isBlank).length
  let s := s.advance blank
  match s.rest with
  | [] => if blank = 0 then .ok ([], s) else .error (unclosedTag s)
  | c :: _ => wordStep r c s

/-- Reads the end of a tag, if no bracket is open and it is there, or a piece of an expression. -/
def closeOrExpression (r : Rules) (close : Pattern) (kind : TokenKind) (closing : List Char)
    (s : State) : Except Located Piece :=
  match if s.brackets.isEmpty then close.length? s.rest else none with
  | some n => .ok ([s.token kind closing], (s.advance n).leave)
  | none => expressionStep r s

/-- Reads the end of an interpolation, if it is the innermost open bracket and its end is there, or
a piece of an expression. -/
def interpolationStep (r : Rules) (s : State) : Except Located Piece :=
  match s.brackets with
  | [] => expressionStep r s
  | innermost :: outer =>
    match if innermost.opener == r.interpolation.opening then r.interpolationEnd.length? s.rest
        else none with
    | some n =>
      .ok ([s.token .interpolationEnd r.interpolation.closing],
        ({ s with brackets := outer }.advance n).leave)
    | none => expressionStep r s

/-- Reads a piece of a string: the start of an interpolation, plain text, or the closing quote. -/
def stringStep (r : Rules) (s : State) : Except Located Piece :=
  match r.interpolationStart.length? s.rest with
  | some n =>
    .ok ([s.token .interpolationStart r.interpolation.opening],
      ((s.openBracket r.interpolation.opening).advance n).enter .interpolation)
  | none =>
    let n := plainLength r.interpolation.opening s.rest
    if n ≠ 0 then .ok ([s.token .string (unescape (s.rest.take n))], s.advance n)
    else
      match s.rest with
      | '"' :: _ =>
        match s.brackets with
        | [] => .ok ([], s.leave.advance 1)
        | innermost :: outer =>
          if innermost.opener == ['"'] then .ok ([], ({ s with brackets := outer }.leave).advance 1)
          else .error (.unclosed (String.ofList innermost.opener), innermost.line)
      | c :: _ => .error (.unexpectedCharacter c, s.line)
      | [] => .error (.unexpectedCharacter '\x00', s.line)

/-- Reads one piece by the rules of the innermost open part. Text and comments are left to the
lexer. -/
def partStep (r : Rules) (s : State) : Except Failure Piece :=
  match s.nesting with
  | [] => .error (.invalidMode .data)
  | .block :: _ =>
    (closeOrExpression r r.blockClose .blockEnd r.block.closing s).mapError .rejected
  | .print :: _ => (closeOrExpression r r.printClose .varEnd r.print.closing s).mapError .rejected
  | .string :: _ => (stringStep r s).mapError .rejected
  | .interpolation :: _ => (interpolationStep r s).mapError .rejected
  | .comment :: _ => .error (.invalidMode .comment)

/-- A step of the lexer that passes over comments. One without an end is a fault. -/
def dropStep (r : Rules) (s : State) : Except Failure Piece :=
  match s.nesting with
  | [] =>
    match dataStep r (realSearch r) s with
    | .error e => .error (.rejected e)
    | .ok (.openComment (_, s)) => .error (.rejected (.unclosedComment, s.line))
    | .ok (.lexed piece) => .ok piece
  | .comment :: _ => .error (.invalidMode .comment)
  | _ => partStep r s

/-- A step of the lexer that keeps comments. Its search leaves every comment open, and an open one
is entered to be read by the step after that. -/
def keepStep (r : Rules) (s : State) : Except Failure Piece :=
  match s.nesting with
  | [] =>
    match dataStep r armedSearch s with
    | .error e => .error (.rejected e)
    | .ok (.openComment (tokens, s)) => .ok (tokens, s.enter .comment)
    | .ok (.lexed piece) => .ok piece
  | .comment :: _ => (commentStep r s).mapError .rejected
  | _ => partStep r s

def step (r : Rules) : Comments → State → Except Failure Piece
  | .drop => dropStep r
  | .keep => keepStep r

/-- Whether there is nothing more to read. A comment opened at the very end has still to be read. -/
def isDone : Comments → State → Bool
  | .drop, s => s.rest.isEmpty
  | .keep, s => s.rest.isEmpty && s.mode != .comment

/-- Reads pieces until nothing is left, at most `steps` of them. -/
def run (r : Rules) (comments : Comments) : Nat → State → Except Failure Piece
  | 0, s => .ok ([], s)
  | steps + 1, s =>
    if isDone comments s then .ok ([], s)
    else
      match step r comments s with
      | .error e => .error e
      | .ok (tokens, s) =>
        match run r comments steps s with
        | .error e => .error e
        | .ok (more, s) => .ok (tokens ++ more, s)

/-- Checks at the end of a template that everything is closed, and gives the end token. -/
def finish (s : State) : Except Located Token :=
  match s.brackets, s.nesting with
  | innermost :: _, _ => .error (.unclosed (String.ofList innermost.opener), innermost.line)
  | [], _ :: _ => .error (unclosedTag s)
  | [], [] => .ok (s.token .eof [])

end TemplateEngine.Lexer
