import TemplateEngine.Proofs.Tokens

/-!
What any sequence of operations does to a token stream. Main statement: the stream ends with an end
token all the way exactly if tokens put behind the last one end with an end token themselves, and
however it ends, the last token is never taken.
-/

namespace TemplateEngine.TokenStream

inductive Operation where
  | next
  | nextIf (kind : TokenKind) (value? : Option String)
  | look (n : Nat)
  | test (kind : TokenKind) (value? : Option String)
  | expect (kind : TokenKind) (value? : Option String)
  | inject (tokens : List Token)

def left {α : Type} (reader : TokenReader α) (s : TokenStream) : TokenStream :=
  match reader s with
  | .ok _ t => t
  | .error _ t => t

/-- The stream that an operation leaves. Looking ahead does not change it. -/
def Operation.apply (s : TokenStream) : Operation → TokenStream
  | next => left TokenReader.next s
  | nextIf kind value? => left (TokenReader.nextIf kind value?) s
  | look _ => s
  | test kind value? => left (TokenReader.test kind value?) s
  | expect kind value? => left (TokenReader.expect kind value?) s
  | inject tokens => s.inject tokens

/-- The stream that operations leave, one after the other. -/
def perform (s : TokenStream) (operations : List Operation) : TokenStream :=
  operations.foldl Operation.apply s

def endsList (tokens : List Token) : Bool :=
  tokens.getLast?.any Token.isEof

def Closed (s : TokenStream) : Prop :=
  endsList s.tokens = true

/-- An operation puts no tokens behind the last one, except for a list with an end of its own. -/
def Operation.KeepsEnd (s : TokenStream) : Operation → Prop
  | inject tokens => s.after = [] → tokens = [] ∨ endsList tokens = true
  | _ => True

/-- All operations, one after the other, keep the end of the stream. -/
def KeepEnd (s : TokenStream) : List Operation → Prop
  | [] => True
  | operation :: operations =>
    operation.KeepsEnd s ∧ KeepEnd (operation.apply s) operations

theorem tokens_moved {s : TokenStream} {token : Token} {rest : List Token}
    (h : s.after = token :: rest) : (s.moved token rest).tokens = s.tokens :=
  tokens_of_advance? (advance?_of_after h)

theorem tokens_left_next (s : TokenStream) : (left TokenReader.next s).tokens = s.tokens := by
  cases hafter : s.after with
  | nil => rw [left, next_of_after_eq_nil hafter]
  | cons token rest =>
    rw [left, next_of_after_eq_cons hafter]
    exact tokens_moved hafter

theorem left_of_outcome {α : Type} {reader : TokenReader α} {s t : TokenStream} {a : α}
    (h : outcome reader s = .ok (a, t)) : left reader s = t := by
  unfold outcome at h
  unfold left
  cases hread : reader s with
  | error e u =>
    rw [hread] at h
    cases h
  | ok b u =>
    rw [hread] at h
    exact (Prod.mk.inj (Except.ok.inj h)).2

theorem tokens_left_nextIf (kind : TokenKind) (value? : Option String) (s : TokenStream) :
    (left (TokenReader.nextIf kind value?) s).tokens = s.tokens := by
  cases htest : s.current.test kind value? with
  | false => rw [left_of_outcome (TokenReader.outcome_nextIf_of_test htest)]
  | true =>
    cases hafter : s.after with
    | nil => rw [left_of_outcome (TokenReader.outcome_nextIf_of_last hafter kind value?)]
    | cons token rest =>
      have hread := TokenReader.outcome_nextIf hafter kind value?
      rw [htest, if_pos rfl] at hread
      rw [left_of_outcome hread, tokens_moved hafter]

theorem tokens_left_expect (kind : TokenKind) (value? : Option String) (s : TokenStream) :
    (left (TokenReader.expect kind value?) s).tokens = s.tokens := by
  have hread : TokenReader.expect kind value? s =
      (if s.current.test kind value? then TokenReader.next
      else TokenReader.fail (.mismatch s.current.kind s.current.value kind value?)
        s.current.line) s := rfl
  rw [left, hread]
  cases s.current.test kind value? with
  | false => rfl
  | true => exact tokens_left_next s

theorem tokens_inject (s : TokenStream) (tokens : List Token) :
    (s.inject tokens).tokens = s.before.reverse ++ s.current :: (tokens ++ s.after) :=
  rfl

theorem endsList_append {front back : List Token} (h : back ≠ []) :
    endsList (front ++ back) = endsList back := by
  obtain ⟨last, hlast⟩ := Option.isSome_iff_exists.1 (List.getLast?_isSome.2 h)
  rw [endsList, List.getLast?_append, endsList, hlast, Option.some_or]

/-- Tokens put in front of the last one leave the end alone; behind it they are the new end. -/
theorem closed_inject_iff {s : TokenStream} (h : s.Closed) (tokens : List Token) :
    (s.inject tokens).Closed ↔ (s.after = [] → tokens = [] ∨ endsList tokens = true) := by
  have hfront : s.before.reverse ++ s.current :: (tokens ++ s.after) =
      (s.before.reverse ++ [s.current]) ++ (tokens ++ s.after) := by simp
  rw [Closed, tokens_inject]
  by_cases hafter : s.after = []
  · by_cases htokens : tokens = []
    · have hsame : s.before.reverse ++ s.current :: (tokens ++ s.after) = s.tokens := by
        rw [htokens]
        rfl
      rw [hsame]
      exact ⟨fun _ _ => .inl htokens, fun _ => h⟩
    · rw [hfront, hafter, List.append_nil, endsList_append htokens]
      simp [htokens]
  · have hclosed : endsList s.after = true := by
      have htokens : s.tokens = (s.before.reverse ++ [s.current]) ++ s.after := by
        simp [TokenStream.tokens]
      rwa [Closed, htokens, endsList_append hafter] at h
    rw [hfront, ← List.append_assoc, endsList_append hafter]
    simp [hafter, hclosed]

/-- One operation on a stream with an end token. -/
theorem closed_apply_iff {s : TokenStream} (h : s.Closed) (operation : Operation) :
    (operation.apply s).Closed ↔ operation.KeepsEnd s := by
  have hkept : ∀ {t : TokenStream}, t.tokens = s.tokens → (t.Closed ↔ True) := by
    intro t ht
    rw [Closed, ht]
    exact iff_true_intro h
  cases operation with
  | next => exact hkept (tokens_left_next s)
  | nextIf kind value? => exact hkept (tokens_left_nextIf kind value? s)
  | look n => exact hkept rfl
  | test kind value? => exact hkept rfl
  | expect kind value? => exact hkept (tokens_left_expect kind value? s)
  | inject tokens => exact closed_inject_iff h tokens

theorem closed_ofTokens (tokens : List Token) (source : String) :
    (ofTokens tokens source).Closed := by
  rw [Closed, tokens_ofTokens, endsList, closeList]
  split
  · rfl
  · next last hlast =>
    split
    · next heof => simpa [hlast] using heof
    · simp [Token.isEof]

/-- A stream stays closed all the way exactly if every operation keeps its end. -/
theorem closed_perform_iff {s : TokenStream} (h : s.Closed) (operations : List Operation) :
    (∀ front, front <+: operations → (s.perform front).Closed) ↔ KeepEnd s operations := by
  induction operations generalizing s with
  | nil =>
    refine iff_of_true (fun front hfront => ?_) trivial
    rw [List.prefix_nil.1 hfront]
    exact h
  | cons operation operations ih =>
    rw [KeepEnd, ← closed_apply_iff h operation]
    constructor
    · intro hall
      have hfirst : (operation.apply s).Closed := hall [operation] (by simp)
      refine ⟨hfirst, (ih hfirst).1 fun front hfront => ?_⟩
      exact hall (operation :: front) (List.cons_prefix_cons.2 ⟨rfl, hfront⟩)
    · rintro ⟨hfirst, hrest⟩ front hfront
      cases front with
      | nil => exact h
      | cons first front =>
        obtain ⟨rfl, hmore⟩ := List.cons_prefix_cons.1 hfront
        exact (ih hfirst).2 hrest front hmore

/-- The place of a stream is in its list, and the last token is never taken. -/
structure StaysInside (s : TokenStream) : Prop where
  current : s.tokens[s.position]? = some s.current
  last : s.after = [] → TokenReader.next s = .error (s.error .unexpectedEnd s.current.line) s

theorem staysInside (s : TokenStream) : s.StaysInside :=
  ⟨by simp [tokens, position], next_of_after_eq_nil⟩

/-- Whatever is done with a stream, its place stays inside the list. It ends with an end token all
the way exactly if no tokens are put behind the last one, except for lists with an end of their
own. -/
theorem closed_perform_iff_keepEnd (tokens : List Token) (source : String)
    (operations : List Operation) :
    ((∀ front, front <+: operations → ((ofTokens tokens source).perform front).Closed) ↔
      KeepEnd (ofTokens tokens source) operations) ∧
    ((ofTokens tokens source).perform operations).StaysInside :=
  ⟨closed_perform_iff (closed_ofTokens tokens source) operations, staysInside _⟩

/-- A text put behind the end token of an empty stream is its last token, and taking the end token
leads on to it. -/
theorem not_closed_inject_text :
    ¬ ((ofTokens [] "page").perform [.inject [⟨.text, "x", 1⟩]]).Closed ∧
      ((ofTokens [] "page").perform [.inject [⟨.text, "x", 1⟩], .next]).current =
        ⟨.text, "x", 1⟩ := by
  refine ⟨fun hclosed => ?_, rfl⟩
  have hends : endsList [⟨.eof, "", 1⟩, ⟨.text, "x", 1⟩] = true := hclosed
  simp [endsList, Token.isEof] at hends

end TemplateEngine.TokenStream
