import TemplateEngine.Lexer.Rules
import TemplateEngine.SyntaxError

/-!
The state of a lexer in the middle of a template. Main statement: moving on by some characters takes
them off the text and counts their line breaks.
-/

namespace TemplateEngine.Lexer

inductive Nesting where
  | block
  | print
  | string
  | interpolation
  | comment
  deriving Repr, DecidableEq

def Nesting.mode : Nesting → Mode
  | block => .block
  | print => .print
  | string => .string
  | interpolation => .interpolation
  | comment => .comment

structure Bracket where
  opener : List Char
  line : Nat
  deriving Repr, DecidableEq

structure State where
  rest : List Char
  offset : Nat
  previous : Option Char
  line : Nat
  nesting : List Nesting
  brackets : List Bracket
  tags : List TagStart
  tagLine : Nat

abbrev Located := SyntaxFault × Nat

inductive Failure where
  | rejected (fault : Located)
  | invalidMode (mode : Mode)
  deriving Repr, DecidableEq

namespace State

def start (r : Rules) (code : List Char) : State where
  rest := code
  offset := 0
  previous := none
  line := 1
  nesting := []
  brackets := []
  tags := r.tagStarts code
  tagLine := 1

/-- What the text at this place is read as. -/
def mode (s : State) : Mode :=
  match s.nesting with
  | [] => .data
  | nesting :: _ => nesting.mode

def advance (n : Nat) (s : State) : State :=
  let taken := s.rest.take n
  { s with
    rest := s.rest.drop n
    offset := s.offset + taken.length
    previous := taken.getLast?.or s.previous
    line := s.line + taken.count '\n' }

def enter (nesting : Nesting) (s : State) : State :=
  { s with nesting := nesting :: s.nesting }

def leave (s : State) : State :=
  { s with nesting := s.nesting.tail }

def openBracket (opener : List Char) (s : State) : State :=
  { s with brackets := ⟨opener, s.line⟩ :: s.brackets }

def token (s : State) (kind : TokenKind) (value : List Char) : Token :=
  ⟨kind, String.ofList value, s.line⟩

def textTokens (s : State) (text : List Char) : List Token :=
  if text.isEmpty then [] else [s.token .text text]

@[simp] theorem rest_advance (n : Nat) (s : State) : (s.advance n).rest = s.rest.drop n := rfl

@[simp] theorem line_advance (n : Nat) (s : State) :
    (s.advance n).line = s.line + (s.rest.take n).count '\n' := rfl

@[simp] theorem nesting_advance (n : Nat) (s : State) : (s.advance n).nesting = s.nesting := rfl

@[simp] theorem brackets_advance (n : Nat) (s : State) : (s.advance n).brackets = s.brackets := rfl

theorem offset_advance {n : Nat} {s : State} (h : n ≤ s.rest.length) :
    (s.advance n).offset = s.offset + n := by
  simp [advance, Nat.min_eq_left h]

end State

end TemplateEngine.Lexer
