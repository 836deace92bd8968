import TemplateEngine.Proofs.Agreement
import TemplateEngine.TokenStream

/-!
Tokens inside tags, and what reading from a token stream comes to.
-/

namespace TemplateEngine

namespace TokenKind

def isInner : TokenKind → Bool
  | .name | .number | .string | .operator | .punctuation | .interpolationStart
  | .interpolationEnd => true
  | _ => false

/-- The kinds of the tokens inside a tag that neither start nor end an interpolation. -/
def isWord : TokenKind → Bool
  | .name | .number | .string | .operator | .punctuation => true
  | _ => false

theorem isInner_of_isWord {kind : TokenKind} (h : kind.isWord = true) : kind.isInner = true := by
  cases kind <;> first | rfl | simp [isWord] at h

def EndsTag (kind : TokenKind) : Prop :=
  kind = .blockEnd ∨ kind = .varEnd

theorem EndsTag.isInner_eq_false {kind : TokenKind} (h : kind.EndsTag) : kind.isInner = false := by
  rcases h with rfl | rfl <;> rfl

end TokenKind

def bracketTexts : List String :=
  ["(", ")", "[", "]", "\x7b", "\x7d"]

def Token.IsPlain (t : Token) : Prop :=
  t.kind ∈ [TokenKind.name, .number, .string, .operator] ∨
    t.kind = .punctuation ∧ t.value ∉ bracketTexts

theorem Token.IsPlain.isWord {t : Token} (h : t.IsPlain) : t.kind.isWord = true := by
  rcases h with h | ⟨h, -⟩
  · simp only [List.mem_cons, List.not_mem_nil, or_false] at h
    rcases h with h | h | h | h <;> rw [h] <;> rfl
  · rw [h]
    rfl

theorem Token.IsPlain.isInner {t : Token} (h : t.IsPlain) : t.kind.isInner = true :=
  TokenKind.isInner_of_isWord h.isWord

theorem Token.kind_of_test {t : Token} {kind : TokenKind} {value? : Option String}
    (h : t.test kind value? = true) : t.kind = kind := by
  simp only [Token.test, Bool.and_eq_true, beq_iff_eq] at h
  exact h.1

/-- The number of interpolations that are open behind these tokens, if `depth` are open in front of
them. There is none if more are ended than are open. -/
def openBehind? : Nat → List Token → Option Nat
  | depth, [] => some depth
  | depth, t :: ts =>
    if t.kind = .interpolationStart then openBehind? (depth + 1) ts
    else if t.kind = .interpolationEnd then
      match depth with
      | 0 => none
      | outer + 1 => openBehind? outer ts
    else openBehind? depth ts

section

variable {depth : Nat} {t start ending : Token} {ts us : List Token}

theorem openBehind?_start (h : t.kind = .interpolationStart) :
    openBehind? depth (t :: ts) = openBehind? (depth + 1) ts := by
  simp [openBehind?, h]

theorem openBehind?_end (h : t.kind = .interpolationEnd) :
    openBehind? (depth + 1) (t :: ts) = openBehind? depth ts := by
  simp [openBehind?, h]

theorem openBehind?_end_zero (h : t.kind = .interpolationEnd) :
    openBehind? 0 (t :: ts) = none := by
  simp [openBehind?, h]

theorem openBehind?_of_ne (hstart : t.kind ≠ .interpolationStart)
    (hend : t.kind ≠ .interpolationEnd) :
    openBehind? depth (t :: ts) = openBehind? depth ts := by
  simp [openBehind?, hstart, hend]

theorem openBehind?_append (depth : Nat) (ts us : List Token) :
    openBehind? depth (ts ++ us) = (openBehind? depth ts).bind (openBehind? · us) := by
  fun_induction openBehind? depth ts with
  | case1 => rfl
  | case2 depth t ts hstart ih => rw [List.cons_append, openBehind?_start hstart, ih]
  | case3 t ts _ hend => rw [List.cons_append, openBehind?_end_zero hend, Option.bind_none]
  | case4 t ts _ hend outer ih => rw [List.cons_append, openBehind?_end hend, ih]
  | case5 depth t ts hstart hend ih => rw [List.cons_append, openBehind?_of_ne hstart hend, ih]

def Paired (ts : List Token) : Prop :=
  ∀ depth, openBehind? depth ts = some depth

theorem paired_nil : Paired [] :=
  fun _ => rfl

theorem paired_word (h : t.kind.isWord = true) : Paired [t] := by
  intro depth
  rw [openBehind?_of_ne, openBehind?]
  all_goals
    intro hkind
    simp [hkind, TokenKind.isWord] at h

theorem Paired.append (h : Paired ts) (h' : Paired us) : Paired (ts ++ us) := by
  intro depth
  rw [openBehind?_append, h, Option.bind_some, h']

theorem Paired.interpolation (hstart : start.kind = .interpolationStart) (h : Paired ts)
    (hend : ending.kind = .interpolationEnd) : Paired (start :: (ts ++ [ending])) := by
  intro depth
  rw [openBehind?_start hstart, openBehind?_append, h, Option.bind_some, openBehind?_end hend,
    openBehind?]

/-- The first end of an interpolation that is open in front of the tokens is found in one way. -/
theorem eq_of_append_end {xs ys xs' ys' : List Token} {x y : Token}
    (hxs : openBehind? 0 xs = some 0) (hys : openBehind? 0 ys = some 0)
    (hx : x.kind = .interpolationEnd) (hy : y.kind = .interpolationEnd)
    (h : xs ++ x :: xs' = ys ++ y :: ys') : xs = ys ∧ x = y ∧ xs' = ys' := by
  have hlonger : ∀ {zs us : List Token} {z : Token}, openBehind? 0 zs = some 0 →
      z.kind = .interpolationEnd → openBehind? 0 (zs ++ z :: us) = none := by
    intro zs us z hzs hz
    rw [openBehind?_append, hzs, Option.bind_some, openBehind?_end_zero hz]
  rcases List.append_eq_append_iff.1 h with ⟨middle, rfl, hback⟩ | ⟨middle, rfl, hback⟩
  · cases middle with
    | nil =>
      obtain ⟨rfl, rfl⟩ := List.cons.inj hback
      simp
    | cons z zs =>
      obtain ⟨rfl, -⟩ := List.cons.inj hback
      simp [hlonger hxs hx] at hys
  · cases middle with
    | nil =>
      obtain ⟨rfl, rfl⟩ := List.cons.inj hback
      simp
    | cons z zs =>
      obtain ⟨rfl, -⟩ := List.cons.inj hback
      simp [hlonger hys hy] at hxs

end

/-- The result of a read with the state behind it, or the error. -/
def outcome {ε σ α : Type} (reader : EStateM ε σ α) (s : σ) : Except ε (α × σ) :=
  match reader s with
  | .ok a t => .ok (a, t)
  | .error e _ => .error e

section

variable {ε σ α β : Type}

@[simp] theorem outcome_pure (a : α) (s : σ) :
    outcome (pure a : EStateM ε σ α) s = .ok (a, s) :=
  rfl

@[simp] theorem outcome_bind (reader : EStateM ε σ α) (f : α → EStateM ε σ β) (s : σ) :
    outcome (reader >>= f) s =
      outcome reader s >>= fun result => outcome (f result.1) result.2 := by
  show (match EStateM.bind reader f s with
    | .ok a t => Except.ok (a, t)
    | .error e _ => .error e) = _
  unfold EStateM.bind outcome
  cases reader s <;> rfl

@[simp] theorem outcome_get (s : σ) : outcome (get : EStateM ε σ σ) s = .ok (s, s) :=
  rfl

@[simp] theorem outcome_modify (f : σ → σ) (s : σ) :
    outcome (modify f : EStateM ε σ PUnit) s = .ok (⟨⟩, f s) :=
  rfl

end

/-- The read comes to an error that satisfies `E`, or to a result and a state behind it that satisfy
`P`. -/
def Gives {ε σ α : Type} (E : ε → Prop) (reader : EStateM ε σ α) (s : σ) (P : α → σ → Prop) :
    Prop :=
  ComesTo E (fun result => P result.1 result.2) (outcome reader s)

namespace Gives

variable {ε σ α β : Type} {E : ε → Prop} {P P' : α → σ → Prop} {Q : β → σ → Prop} {s : σ}

theorem of_outcome {reader : EStateM ε σ α} {x : Except ε (α × σ)} (h : outcome reader s = x)
    (hx : ComesTo E (fun result => P result.1 result.2) x) : Gives E reader s P := by
  rw [Gives, h]
  exact hx

theorem pure {a : α} (h : P a s) : Gives E (Pure.pure a) s P :=
  .ok h

theorem bind {reader : EStateM ε σ α} {f : α → EStateM ε σ β} (h : Gives E reader s P)
    (hf : ∀ a t, P a t → Gives E (f a) t Q) : Gives E (reader >>= f) s Q :=
  .of_outcome (outcome_bind reader f s)
    (ComesTo.bind h fun result hresult => hf result.1 result.2 hresult)

theorem get_bind {f : σ → EStateM ε σ β} (hf : Gives E (f s) s Q) : Gives E (get >>= f) s Q :=
  hf

theorem modify_bind {g : σ → σ} {f : PUnit → EStateM ε σ β} (hf : Gives E (f ⟨⟩) (g s) Q) :
    Gives E (modify g >>= f) s Q :=
  hf

theorem mono {reader : EStateM ε σ α} (h : Gives E reader s P) (hP : ∀ a t, P a t → P' a t) :
    Gives E reader s P' :=
  ComesTo.mono h (fun _ he => he) fun _ hresult => hP _ _ hresult

end Gives

namespace TokenStream

def ahead (s : TokenStream) : List Token :=
  s.current :: s.after

def moved (s : TokenStream) (token : Token) (after : List Token) : TokenStream :=
  { s with before := s.current :: s.before, current := token, after := after }

theorem advance?_of_after {s : TokenStream} {token : Token} {rest : List Token}
    (h : s.after = token :: rest) : s.advance? = some (s.moved token rest) := by
  unfold advance?
  rw [h]
  rfl

theorem next_eq (s : TokenStream) :
    TokenReader.next s =
      (match s.advance? with
        | some rest => (do set rest; return s.current : TokenReader Token)
        | none => TokenReader.fail .unexpectedEnd s.current.line) s :=
  rfl

/-- The last token cannot be taken. -/
theorem next_of_after_eq_nil {s : TokenStream} (h : s.after = []) :
    TokenReader.next s = .error (s.error .unexpectedEnd s.current.line) s := by
  rw [next_eq, advance?, h]
  rfl

theorem next_of_after_eq_cons {s : TokenStream} {token : Token} {rest : List Token}
    (h : s.after = token :: rest) : TokenReader.next s = .ok s.current (s.moved token rest) := by
  rw [next_eq, advance?_of_after h]
  rfl

theorem closeList_append_eof (tokens : List Token) {eof : Token} (heof : eof.kind = .eof) :
    closeList (tokens ++ [eof]) = tokens ++ [eof] := by
  simp [closeList, Token.isEof, heof]

@[simp] theorem before_ofTokens (tokens : List Token) (source : String) :
    (ofTokens tokens source).before = [] := by
  unfold ofTokens
  split <;> rfl

@[simp] theorem source_ofTokens (tokens : List Token) (source : String) :
    (ofTokens tokens source).source = source := by
  unfold ofTokens
  split <;> rfl

theorem tokens_eq_ahead {s : TokenStream} (h : s.before = []) : s.tokens = s.ahead := by
  simp [tokens, ahead, h]

theorem ahead_ofTokens (tokens : List Token) (source : String) :
    (ofTokens tokens source).ahead = closeList tokens := by
  rw [← tokens_eq_ahead (before_ofTokens tokens source), tokens_ofTokens]

/-- Behind the first token of a list that ends with an end token are the others. -/
theorem exists_advance?_ofTokens (first : Token) (tokens : List Token) {eof : Token}
    (heof : eof.kind = .eof) (source : String) :
    ∃ s, (ofTokens (first :: (tokens ++ [eof])) source).advance? = some s ∧
      s.ahead = tokens ++ [eof] := by
  obtain ⟨token, rest, hrest⟩ := List.exists_cons_of_ne_nil (l := tokens ++ [eof]) (by simp)
  have hclosed : closeList (first :: (tokens ++ [eof])) = first :: token :: rest := by
    rw [← List.cons_append, closeList_append_eof _ heof, List.cons_append, hrest]
  unfold ofTokens
  rw [hclosed, hrest]
  exact ⟨_, rfl, rfl⟩

@[simp] theorem ahead_moved (s : TokenStream) (token : Token) (rest : List Token) :
    (s.moved token rest).ahead = token :: rest :=
  rfl

end TokenStream

namespace TokenReader

@[simp] theorem outcome_current (s : TokenStream) : outcome current s = .ok (s.current, s) :=
  rfl

@[simp] theorem outcome_test (kind : TokenKind) (value? : Option String) (s : TokenStream) :
    outcome (test kind value?) s = .ok (s.current.test kind value?, s) :=
  rfl

@[simp] theorem outcome_fail {α : Type} (fault : SyntaxFault) (line : Nat) (s : TokenStream) :
    outcome (fail fault line : TokenReader α) s = .error (s.error fault line) :=
  rfl

theorem outcome_next {s : TokenStream} {token : Token} {rest : List Token}
    (h : s.after = token :: rest) : outcome next s = .ok (s.current, s.moved token rest) := by
  rw [outcome, TokenStream.next_of_after_eq_cons h]

theorem outcome_next_of_last {s : TokenStream} (h : s.after = []) :
    outcome next s = .error (s.error .unexpectedEnd s.current.line) := by
  rw [outcome, TokenStream.next_of_after_eq_nil h]

theorem outcome_nextIf {s : TokenStream} {token : Token} {rest : List Token}
    (h : s.after = token :: rest) (kind : TokenKind) (value? : Option String) :
    outcome (nextIf kind value?) s =
      if s.current.test kind value? then .ok (some s.current, s.moved token rest)
      else .ok (none, s) := by
  unfold nextIf
  simp only [outcome_bind, outcome_get, ok_bind, TokenStream.advance?_of_after h, TokenStream.test]
  split <;> rfl

theorem outcome_nextIf_of_test {s : TokenStream} {kind : TokenKind} {value? : Option String}
    (h : s.current.test kind value? = false) : outcome (nextIf kind value?) s = .ok (none, s) := by
  unfold nextIf
  simp only [outcome_bind, outcome_get, ok_bind, TokenStream.test, h]
  rfl

theorem outcome_nextIf_of_last {s : TokenStream} (h : s.after = []) (kind : TokenKind)
    (value? : Option String) : outcome (nextIf kind value?) s = .ok (none, s) := by
  cases htest : s.current.test kind value? with
  | false => exact outcome_nextIf_of_test htest
  | true =>
    unfold nextIf
    rw [outcome_bind, outcome_get]
    simp only [ok_bind, TokenStream.test, htest, TokenStream.advance?, h]
    rfl

theorem outcome_expect_of_test {s : TokenStream} {kind : TokenKind} {value? : Option String}
    (h : s.current.test kind value? = false) :
    outcome (expect kind value?) s =
      .error (s.error (.mismatch s.current.kind s.current.value kind value?) s.current.line) := by
  unfold expect
  simp only [outcome_bind, outcome_current, ok_bind, h]
  rfl

theorem outcome_expect {s : TokenStream} {token : Token} {rest : List Token}
    (h : s.after = token :: rest) (kind : TokenKind) (value? : Option String) :
    outcome (expect kind value?) s =
      if s.current.test kind value? then .ok (s.current, s.moved token rest)
      else
        .error (s.error (.mismatch s.current.kind s.current.value kind value?) s.current.line) := by
  unfold expect
  rw [outcome_bind, outcome_current]
  show outcome (if s.current.test kind value? then next else _) s = _
  split
  · exact outcome_next h
  · rfl

end TokenReader

def TokenStream.Past (s : TokenStream) (token : Token) (t : TokenStream) : Prop :=
  token = s.current ∧ s.ahead = token :: t.ahead

theorem TokenStream.past_moved {s : TokenStream} {token : Token} {rest : List Token}
    (h : s.after = token :: rest) : s.Past s.current (s.moved token rest) :=
  ⟨rfl, by rw [ahead_moved, ahead, h]⟩

namespace TokenReader

variable {E : SyntaxError → Prop} {s : TokenStream} {α : Type} {Q : α → TokenStream → Prop}

theorem gives_current {f : Token → TokenReader α} (hf : Gives E (f s.current) s Q) :
    Gives E (current >>= f) s Q :=
  hf

theorem gives_next (hend : E (s.error .unexpectedEnd s.current.line)) : Gives E next s s.Past := by
  cases hs : s.after with
  | nil => exact .of_outcome (outcome_next_of_last hs) (.error hend)
  | cons token rest => exact .of_outcome (outcome_next hs) (.ok (TokenStream.past_moved hs))

theorem gives_expect {kind : TokenKind} {value? : Option String}
    (hend : E (s.error .unexpectedEnd s.current.line))
    (hother : E (s.error (.mismatch s.current.kind s.current.value kind value?) s.current.line)) :
    Gives E (expect kind value?) s fun token t =>
      s.Past token t ∧ token.test kind value? = true := by
  cases htest : s.current.test kind value? with
  | false => exact .of_outcome (outcome_expect_of_test htest) (.error hother)
  | true =>
    unfold expect
    apply gives_current
    rw [if_pos htest]
    apply (gives_next hend).mono
    rintro _ t ⟨rfl, hahead⟩
    exact ⟨⟨rfl, hahead⟩, htest⟩

/-- The token that is looked for is taken, or nothing is; the last token of all never is. -/
theorem gives_nextIf (s : TokenStream) (kind : TokenKind) (value? : Option String) :
    Gives E (nextIf kind value?) s fun token? t =>
      match token? with
      | some token => s.Past token t ∧ token.test kind value? = true
      | none => t = s ∧ (s.after ≠ [] → s.current.test kind value? = false) := by
  cases htest : s.current.test kind value? with
  | false => exact .of_outcome (outcome_nextIf_of_test htest) (.ok ⟨rfl, fun _ => rfl⟩)
  | true =>
    cases hs : s.after with
    | nil =>
      refine .of_outcome (outcome_nextIf_of_last hs kind value?) (.ok ⟨rfl, fun hne => ?_⟩)
      exact absurd rfl hne
    | cons token rest =>
      have hsome : outcome (nextIf kind value?) s = .ok (some s.current, s.moved token rest) := by
        rw [outcome_nextIf hs, htest]
        rfl
      exact .of_outcome hsome (.ok ⟨TokenStream.past_moved hs, htest⟩)

end TokenReader

/-- The read succeeds with a result that has the given property, and leaves these tokens ahead. -/
def Takes {α : Type} (reader : TokenReader α) (s : TokenStream) (P : α → Prop)
    (left : List Token) : Prop :=
  ∃ a t, P a ∧ t.ahead = left ∧ outcome reader s = .ok (a, t)

namespace Takes

open TokenReader

variable {α β : Type} {P : α → Prop} {Q : β → Prop} {s : TokenStream} {t u : Token}
  {left rest : List Token}

theorem pure {a : α} (ha : P a) (hs : s.ahead = left) :
    Takes (Pure.pure a : TokenReader α) s P left :=
  ⟨a, s, ha, hs, rfl⟩

theorem bind {f : TokenReader α} {g : α → TokenReader β} {middle : List Token}
    (hf : Takes f s P middle) (hg : ∀ a t, P a → t.ahead = middle → Takes (g a) t Q left) :
    Takes (f >>= g) s Q left := by
  obtain ⟨a, t, ha, ht, hfirst⟩ := hf
  obtain ⟨b, v, hb, hv, hsecond⟩ := hg a t ha ht
  refine ⟨b, v, hb, hv, ?_⟩
  rw [outcome_bind, hfirst, ok_bind]
  exact hsecond

theorem mono {P' : α → Prop} {f : TokenReader α} (h : Takes f s P left) (hP : ∀ a, P a → P' a) :
    Takes f s P' left := by
  obtain ⟨a, t, ha, ht, hf⟩ := h
  exact ⟨a, t, hP a ha, ht, hf⟩

theorem ofCurrent {f : Token → TokenReader β} (hs : s.ahead = t :: rest)
    (hf : Takes (f t) s Q left) : Takes (current >>= f) s Q left := by
  have hcurrent : s.current = t := (List.cons.inj hs).1
  unfold Takes
  simp only [outcome_bind, outcome_current, ok_bind, hcurrent]
  exact hf

theorem ofTest {kind : TokenKind} {value? : Option String} {f : Bool → TokenReader β}
    (hs : s.ahead = t :: rest) (hf : Takes (f (t.test kind value?)) s Q left) :
    Takes (test kind value? >>= f) s Q left := by
  have hcurrent : s.current = t := (List.cons.inj hs).1
  unfold Takes
  simp only [outcome_bind, outcome_test, ok_bind, hcurrent]
  exact hf

theorem ofModify {g : TokenStream → TokenStream} {f : PUnit → TokenReader β}
    (hf : Takes (f ⟨⟩) (g s) Q left) : Takes (modify g >>= f) s Q left := by
  unfold Takes
  simp only [outcome_bind, outcome_modify, ok_bind]
  exact hf

theorem next (hs : s.ahead = t :: u :: rest) : Takes next s (· = t) (u :: rest) := by
  obtain ⟨hcurrent, hafter⟩ := List.cons.inj hs
  exact ⟨s.current, s.moved u rest, hcurrent, rfl, outcome_next hafter⟩

theorem expect {kind : TokenKind} {value? : Option String} (hs : s.ahead = t :: u :: rest)
    (ht : t.test kind value? = true) : Takes (expect kind value?) s (· = t) (u :: rest) := by
  obtain ⟨hcurrent, hafter⟩ := List.cons.inj hs
  refine ⟨s.current, s.moved u rest, hcurrent, rfl, ?_⟩
  rw [outcome_expect hafter, hcurrent, ht]
  rfl

theorem nextIf {kind : TokenKind} {value? : Option String} (hs : s.ahead = t :: u :: rest)
    (ht : t.test kind value? = true) : Takes (nextIf kind value?) s (· = some t) (u :: rest) := by
  obtain ⟨hcurrent, hafter⟩ := List.cons.inj hs
  refine ⟨some s.current, s.moved u rest, congrArg some hcurrent, rfl, ?_⟩
  rw [outcome_nextIf hafter, hcurrent, ht]
  rfl

theorem nextIf_none {kind : TokenKind} {value? : Option String} (hs : s.ahead = t :: rest)
    (ht : t.test kind value? = false) :
    Takes (TokenReader.nextIf kind value?) s (· = none) (t :: rest) := by
  have hcurrent : s.current = t := (List.cons.inj hs).1
  exact ⟨none, s, rfl, hs, outcome_nextIf_of_test (by rw [hcurrent, ht])⟩

end Takes

end TemplateEngine
