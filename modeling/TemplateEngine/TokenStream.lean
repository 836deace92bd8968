import TemplateEngine.SyntaxError

/-!
A template's tokens with a current one among them. Main statements: a stream made from a list has
the tokens of the list, followed by an end token if it had none; moving on keeps them.
-/

namespace TemplateEngine

/-- The tokens of a template, cut at the current one. Those in front are kept nearest first. -/
structure TokenStream where
  before : List Token
  current : Token
  after : List Token
  source : String
  deriving Repr, DecidableEq

namespace TokenStream

def tokens (s : TokenStream) : List Token :=
  s.before.reverse ++ s.current :: s.after

def position (s : TokenStream) : Nat :=
  s.before.length

/-- A list that ends with an end token; one is added at the line of the last token if it is
missing. -/
def closeList (tokens : List Token) : List Token :=
  match tokens.getLast? with
  | none => [⟨.eof, "", 1⟩]
  | some last => if last.isEof then tokens else tokens ++ [⟨.eof, "", last.line⟩]

/-- The stream of a list of tokens, at the first one. -/
def ofTokens (tokens : List Token) (source : String) : TokenStream :=
  match closeList tokens with
  | [] => ⟨[], ⟨.eof, "", 1⟩, [], source⟩
  | token :: rest => ⟨[], token, rest, source⟩

/-- The stream at the next token, if there is one. -/
def advance? (s : TokenStream) : Option TokenStream :=
  match s.after with
  | [] => none
  | token :: rest =>
    some { s with before := s.current :: s.before, current := token, after := rest }

def isEof (s : TokenStream) : Bool :=
  s.current.isEof

/-- Whether the current token has the given kind and, when one is given, the given text. -/
def test (s : TokenStream) (kind : TokenKind) (value? : Option String) : Bool :=
  s.current.test kind value?

def error (s : TokenStream) (fault : SyntaxFault) (line : Nat) : SyntaxError :=
  ⟨fault, line, s.source⟩

def look (s : TokenStream) (n : Nat) : Except SyntaxError Token :=
  match (s.current :: s.after)[n]? with
  | some token => .ok token
  | none => .error (s.error .unexpectedEnd s.current.line)

def inject (s : TokenStream) (tokens : List Token) : TokenStream :=
  { s with after := tokens ++ s.after }

theorem closeList_ne_nil (tokens : List Token) : closeList tokens ≠ [] := by
  unfold closeList
  split
  · simp
  · next h =>
    split
    · rintro rfl
      simp at h
    · simp

@[simp] theorem tokens_ofTokens (tokens : List Token) (source : String) :
    (ofTokens tokens source).tokens = closeList tokens := by
  unfold ofTokens
  split
  · next h => exact absurd h (closeList_ne_nil tokens)
  · next h => simp [TokenStream.tokens, h]

theorem tokens_of_advance? {s t : TokenStream} (h : s.advance? = some t) : t.tokens = s.tokens := by
  unfold advance? at h
  split at h
  · simp at h
  · next ha =>
    obtain rfl := Option.some.inj h
    simp [tokens, ha]

end TokenStream

abbrev TokenReader := EStateM SyntaxError TokenStream

namespace TokenReader

def current : TokenReader Token :=
  return (← get).current

def fail {α : Type} (fault : SyntaxFault) (line : Nat) : TokenReader α := do
  throw ((← get).error fault line)

def next : TokenReader Token := do
  let stream ← get
  match stream.advance? with
  | some rest =>
    set rest
    return stream.current
  | none => fail .unexpectedEnd stream.current.line

/-- Takes the current token if it has the given kind and text and is not the last one. -/
def nextIf (kind : TokenKind) (value? : Option String) : TokenReader (Option Token) := do
  let stream ← get
  if stream.test kind value? then
    match stream.advance? with
    | some rest =>
      set rest
      return some stream.current
    | none => return none
  else return none

def test (kind : TokenKind) (value? : Option String) : TokenReader Bool :=
  return (← get).test kind value?

/-- Takes the current token, which must have the given kind and text. -/
def expect (kind : TokenKind) (value? : Option String) : TokenReader Token := do
  let token ← current
  if token.test kind value? then next
  else fail (.mismatch token.kind token.value kind value?) token.line

end TokenReader

end TemplateEngine
