import TemplateEngine.Proofs.Lexer.Reaches
import TemplateEngine.Proofs.Lexer.Spaced

/-!
Pieces of expressions, with or without white space in front of them. Main statements: where an
expression is read, the default lexer passes over white space and reads the piece behind it, unless
that begins like the end of a tag or of an interpolation; and a print tag is read as the tokens of
what stands inside of it.
-/

namespace TemplateEngine.Lexer

def ReadsExpressions : List Nesting → Prop
  | .block :: _ | .print :: _ | .interpolation :: _ => True
  | _ => False

section

variable {r : Rules} {s : State} {gap cs : List Char} {c : Char}

/-- The state at a piece of an expression behind white space. -/
theorem rest_advance_gap (hrest : s.rest = gap ++ cs) : (s.advance gap.length).rest = cs := by
  rw [State.rest_advance, hrest, List.drop_left]

theorem expressionStep_of_gap (hgap : IsGap gap) (hblank : Text.isBlank c = false)
    (hrest : s.rest = gap ++ c :: cs) :
    expressionStep r s = wordStep r c (s.advance gap.length) := by
  have htake : (s.rest.takeWhile Text.isBlank).length = gap.length := by
    rw [hrest, hgap.takeWhile hblank]
  unfold expressionStep
  simp only [htake, rest_advance_gap hrest]

/-- White space is passed over in front of a piece that does not begin like the end of the tag. -/
theorem step_of_gap (comments : Comments) (hplace : InTag s.nesting)
    (hexpression : ReadsExpressions s.nesting) (hgap : IsGap gap) (hblank : Text.isBlank c = false)
    (hc : c ∉ closingHeads) (hrest : s.rest = gap ++ c :: cs) :
    step defaultRules comments s =
      (wordStep defaultRules c (s.advance gap.length)).mapError .rejected := by
  have hword := expressionStep_of_gap (r := defaultRules) hgap hblank hrest
  rw [step_of_inTag hplace, partStep]
  unfold ReadsExpressions at hexpression
  split at hexpression
  · next hnest =>
    simp only [hnest]
    rw [closeOrExpression, hrest, blockClose_eq_none hgap hblank hc, ite_self, hword]
  · next hnest =>
    simp only [hnest]
    rw [closeOrExpression, hrest, printClose_eq_none hgap hblank hc, ite_self, hword]
  · next hnest =>
    simp only [hnest]
    unfold interpolationStep
    rw [hrest, interpolationEnd_eq_none hgap hblank hc, hword]
    cases s.brackets with
    | nil => rfl
    | cons innermost outer => simp only [ite_self]
  · exact hexpression.elim

end

structure InPrint (s : State) (rest : List Char) : Prop where
  nesting : s.nesting = [.print]
  brackets : s.brackets = []
  rest : s.rest = rest

section

variable (comments : Comments) {s : State} {gap chars more : List Char}

/-- A piece that is read as one token, behind white space. -/
theorem reaches_piece (hs : InPrint s (gap ++ (chars ++ more))) (hgap : IsGap gap)
    {c : Char} (hc : chars.head? = some c) (hblank : Text.isBlank c = false)
    (hclosing : c ∉ closingHeads) {kind : TokenKind}
    (hword : ∀ u : State, u.rest = chars ++ more → wordStep defaultRules c u =
      .ok ([u.token kind chars], u.advance chars.length)) :
    ∃ t token, Reaches defaultRules comments s [token] t ∧
      token.spelling = (kind, String.ofList chars) ∧ InPrint t more := by
  obtain ⟨cs, rfl⟩ := List.head?_eq_some_iff.1 hc
  have hplace : InTag s.nesting := by
    rw [hs.nesting]
    trivial
  have hexpression : ReadsExpressions s.nesting := by
    rw [hs.nesting]
    trivial
  have hrest := rest_advance_gap hs.rest
  have hstep := step_of_gap comments hplace hexpression hgap hblank hclosing hs.rest
  rw [hword _ hrest] at hstep
  have hdone : isDone comments s = false := isDone_eq_false (by rw [hs.rest]; simp)
  refine ⟨_, _, .single hdone hstep, rfl, hs.nesting, hs.brackets, ?_⟩
  rw [State.rest_advance, hrest, List.drop_left]

theorem reaches_name {text : String} (h : IsName text) (hgap : IsGap gap) {behind : Char}
    (hbehind : isNameChar behind = false)
    (hs : InPrint s (gap ++ (text.toList ++ behind :: more))) :
    ∃ t token, Reaches defaultRules comments s [token] t ∧ token.spelling = (.name, text) ∧
      InPrint t (behind :: more) := by
  obtain ⟨c, cs, hcs, hc, -⟩ := h.1
  have hc := isIdentifierChar_of_start hc
  have := reaches_piece comments hs hgap (by rw [hcs]; rfl)
    (isBlank_of_isIdentifierChar hc) (not_mem_closingHeads_of_isIdentifierChar hc)
    fun u hu => wordStep_name h hbehind hu
  rwa [String.ofList_toList] at this

theorem reaches_number (hgap : IsGap gap) {c : Char} (hdigit : c.isDigit = true) {cs : List Char}
    (hnumber : numberLength (c :: cs ++ more) = (c :: cs).length)
    (hs : InPrint s (gap ++ (c :: cs ++ more))) :
    ∃ t token, Reaches defaultRules comments s [token] t ∧
      token.spelling = (.number, String.ofList (c :: cs)) ∧ InPrint t more := by
  have hc := plainHead_of_isDigit hdigit
  exact reaches_piece comments hs hgap rfl hc.blank hc.not_mem_closingHeads
    fun u hu => wordStep_number (by simpa using hdigit) hu hnumber

theorem reaches_point (hs : InPrint s ('.' :: more)) :
    ∃ t token, Reaches defaultRules comments s [token] t ∧ token.spelling = (.punctuation, ".") ∧
      InPrint t more := by
  have hpoint : '.' ∈ markChars := by decide
  have hc := plainHead_mark hpoint
  exact @reaches_piece comments s [] ['.'] more hs isGap_nil '.' rfl hc.blank
    hc.not_mem_closingHeads _ fun u hu => wordStep_mark hpoint hu

end

/-- The text of a print tag with a blank at both ends. -/
def printChars (inside : List Char) : List Char :=
  '\x7b' :: '\x7b' :: ' ' :: (inside ++ [' ', '\x7d', '\x7d'])

section

variable {comments : Comments} {inside : List Char} {P : List Token → Prop}
  (h : ∀ s, InPrint s (' ' :: (inside ++ [' ', '\x7d', '\x7d'])) →
    ∃ t ts, Reaches defaultRules comments s ts t ∧ P ts ∧ InPrint t [' ', '\x7d', '\x7d'])
include h

/-- A print tag is read as the tokens of what stands inside of it. -/
theorem tokenize_printChars {source : Source}
    (hsource : unifyBreaks source.code.toList = printChars inside) :
    ∃ lexer opening ts closing eof, ofOptions {} comments = .ok lexer ∧
      opening.kind = .varStart ∧ P ts ∧ closing.kind = .varEnd ∧ eof.kind = .eof ∧
      lexer.tokenize source =
        .ok (.ofTokens (opening :: (ts ++ [closing, eof])) source.name) := by
  rw [printChars] at hsource
  generalize inside ++ [' ', '\x7d', '\x7d'] = middle at h hsource
  obtain ⟨opening, s, hopen, hstart, hs⟩ : ∃ opening s, step defaultRules comments
      (.start defaultRules ('\x7b' :: '\x7b' :: ' ' :: middle)) = .ok ([opening], s) ∧
        opening.kind = .varStart ∧ InPrint s (' ' :: middle) := by
    cases comments <;> exact ⟨_, _, rfl, rfl, rfl, rfl, rfl⟩
  obtain ⟨t, ts, hts, hP, ht⟩ := h s hs
  obtain ⟨closing, u, hclose, hkind, hunest, hubrackets, hurest⟩ :=
    step_printEnd comments ht.nesting ht.brackets ht.rest
  have hfinish : finish u = .ok (u.token .eof []) := by
    unfold finish
    rw [hubrackets, hunest]
  have hreaches := (Reaches.single (isDone_eq_false (by simp [State.start])) hopen).trans
    (hts.trans (.single (isDone_eq_false (by simp [ht.rest])) hclose))
  have htokens : Lexer.tokens ⟨defaultRules, comments⟩ _ = .ok _ := tokens_eq_ok.2
    ⟨_, u, _, hreaches, isDone_of_rest_eq_nil hurest (.inl hunest), hfinish, rfl⟩
  refine ⟨⟨defaultRules, comments⟩, opening, ts, closing, u.token .eof [],
    ofOptions_eq_ok.2 ⟨defaultRules, ofOptions?_default, rfl⟩, hstart, hP, hkind, rfl, ?_⟩
  rw [tokenize_eq_bind, hsource, htokens]
  simp [Except.map]

theorem tokenize_print (hbreaks : '\r' ∉ inside) (name : String) :
    ∃ lexer opening ts closing eof, ofOptions {} comments = .ok lexer ∧
      opening.kind = .varStart ∧ P ts ∧ closing.kind = .varEnd ∧ eof.kind = .eof ∧
      lexer.tokenize ⟨name, String.ofList (printChars inside)⟩ =
        .ok (.ofTokens (opening :: (ts ++ [closing, eof])) name) := by
  have hsource : unifyBreaks (Source.mk name (String.ofList (printChars inside))).code.toList =
      printChars inside := by
    rw [String.toList_ofList, unifyBreaks_eq_self (by simp [printChars, hbreaks])]
  exact tokenize_printChars h hsource

end

end TemplateEngine.Lexer
