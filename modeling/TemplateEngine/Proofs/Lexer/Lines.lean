import TemplateEngine.Proofs.Lexer.Reaches
import TemplateEngine.Proofs.Lines

/-!
The lines that a lexer reports. Main statement: a lexer gives tokens that stand on lines of the
template, or fails with a fault that was found on one of them, and never because its rules do not
cover the part it stands in.
-/

namespace TemplateEngine

namespace Lexer

variable {r : Rules} {comments : Comments} {s t : State} {last n : Nat}

/-- A state in a template that has `last` lines. The lines of the text that is left come behind the
present one; whatever is open was opened on one of the lines. -/
structure State.InLines (last : Nat) (s : State) : Prop where
  pos : 1 ≤ s.line
  rest : s.line + s.rest.count '\n' = last
  brackets : ∀ b ∈ s.brackets, IsLine last b.line
  tagLine : IsLine last s.tagLine

namespace State.InLines

theorem line (h : s.InLines last) : IsLine last s.line :=
  ⟨h.pos, by have := h.rest; omega⟩

theorem start (r : Rules) (code : List Char) :
    (State.start r code).InLines (1 + code.count '\n') where
  pos := Nat.le_refl 1
  rest := rfl
  brackets := by simp [State.start]
  tagLine := ⟨Nat.le_refl 1, Nat.le_add_right 1 _⟩

/-- Moving on turns line breaks of the rest into lines passed. -/
theorem advance (h : s.InLines last) (n : Nat) : (s.advance n).InLines last where
  pos := Nat.le_trans h.pos (Nat.le_add_right _ _)
  rest := by
    have hcount : (s.rest.take n).count '\n' + (s.rest.drop n).count '\n' = s.rest.count '\n' := by
      rw [← List.count_append, List.take_append_drop]
    rw [State.line_advance, State.rest_advance, Nat.add_assoc, hcount]
    exact h.rest
  brackets := h.brackets
  tagLine := h.tagLine

theorem enter (h : s.InLines last) (nesting : Nesting) : (s.enter nesting).InLines last :=
  ⟨h.pos, h.rest, h.brackets, h.tagLine⟩

theorem leave (h : s.InLines last) : s.leave.InLines last :=
  ⟨h.pos, h.rest, h.brackets, h.tagLine⟩

theorem openBracket (h : s.InLines last) (opener : List Char) :
    (s.openBracket opener).InLines last where
  pos := h.pos
  rest := h.rest
  brackets := by
    intro b hb
    rcases List.mem_cons.1 hb with rfl | hb
    · exact h.line
    · exact h.brackets b hb
  tagLine := h.tagLine

theorem closeBracket {innermost : Bracket} {outer : List Bracket} (h : s.InLines last)
    (hs : s.brackets = innermost :: outer) : ({ s with brackets := outer } : State).InLines last :=
  ⟨h.pos, h.rest, fun b hb => h.brackets b (hs ▸ List.mem_cons_of_mem _ hb), h.tagLine⟩

theorem innermost {innermost : Bracket} {outer : List Bracket} (h : s.InLines last)
    (hs : s.brackets = innermost :: outer) : IsLine last innermost.line :=
  h.brackets innermost (hs ▸ List.mem_cons_self)

theorem withTags (h : s.InLines last) (tags : List TagStart) :
    ({ s with tags := tags } : State).InLines last :=
  ⟨h.pos, h.rest, h.brackets, h.tagLine⟩

end State.InLines

structure Piece.InLines (last : Nat) (piece : Piece) : Prop where
  tokens : OnLines last piece.1
  state : piece.2.InLines last

abbrev FoundIn (last : Nat) (fault : Located) : Prop :=
  FaultAt last fault.1 fault.2

abbrev Lined (last : Nat) : Except Located Piece → Prop :=
  ComesTo (FoundIn last) (Piece.InLines last)

/-- A piece of one token at the line where it begins. -/
theorem lined_token (h : s.InLines last) (kind : TokenKind) (value : List Char)
    (ht : t.InLines last) : Lined last (.ok ([s.token kind value], t)) :=
  .ok ⟨.singleton h.line, ht⟩

/-- A piece without tokens. -/
theorem lined_silent (ht : t.InLines last) : Lined last (.ok ([], t)) :=
  .ok ⟨.nil, ht⟩

theorem onLines_textTokens (h : s.InLines last) (text : List Char) :
    OnLines last (s.textTokens text) := by
  unfold State.textTokens
  split
  · exact .nil
  · exact .singleton h.line

theorem verbatimStep_lined (h : s.InLines last) : Lined last (verbatimStep r s) := by
  unfold verbatimStep
  split
  · exact .error ⟨h.line, by simp⟩
  · exact .ok ⟨onLines_textTokens h _, h.advance _⟩

theorem enterTag_inLines (h : s.InLines last) (nesting : Nesting) (kind : TokenKind)
    (opening : List Char) : Piece.InLines last (enterTag nesting kind opening s) where
  tokens := .singleton h.line
  state := ⟨h.pos, h.rest, h.brackets, h.line⟩

theorem tagStep_lined (h : s.InLines last) (search : EndSearch) (kind : TagKind) :
    ComesTo (FoundIn last) (fun d => d.piece.InLines last) (tagStep r search kind s) := by
  unfold tagStep
  split
  · split
    · exact .ok ⟨.nil, h⟩
    · exact .ok ⟨.nil, h.advance _⟩
  · exact .ok (enterTag_inLines h _ _ _)
  · split
    · next n _ => exact (verbatimStep_lined (h.advance n)).map fun _ hpiece => hpiece
    · exact .ok (enterTag_inLines h _ _ _)

theorem dataStep_lined (h : s.InLines last) (search : EndSearch) :
    ComesTo (FoundIn last) (fun d => d.piece.InLines last) (dataStep r search s) := by
  unfold dataStep
  split
  · exact .ok ⟨onLines_textTokens h _, h.advance _⟩
  · next start later _ =>
    have htag := (h.advance (start.offset - s.offset + start.length)).withTags later
    apply (tagStep_lined htag search start.kind).map
    intro d hd
    rw [DataPiece.piece_after]
    exact ⟨(onLines_textTokens h _).append hd.tokens, hd.state⟩

theorem commentStep_lined (h : s.InLines last) : Lined last (commentStep r s) := by
  unfold commentStep
  split
  · exact .error ⟨h.line, by simp⟩
  · next body n _ =>
    refine .ok ⟨fun t ht => ?_, (h.advance _).leave⟩
    simp only [List.mem_cons, List.not_mem_nil, or_false] at ht
    rcases ht with rfl | rfl | rfl | rfl <;> exact h.line

theorem foundIn_unclosedTag (h : s.InLines last) : FoundIn last (unclosedTag s) :=
  ⟨h.tagLine, by simp [unclosedTag]⟩

theorem punctuationStep_lined (h : s.InLines last) (c : Char) :
    Lined last (punctuationStep c s) := by
  unfold punctuationStep
  split
  · split
    · exact .error ⟨h.line, by simp⟩
    · next innermost outer hs =>
      split
      · exact lined_token h _ _ ((h.closeBracket hs).advance 1)
      · exact .error ⟨h.innermost hs, by simp⟩
  · split
    · exact lined_token h _ _ ((h.openBracket [c]).advance 1)
    · exact lined_token h _ _ (h.advance 1)

theorem wordStep_lined (h : s.InLines last) (c : Char) : Lined last (wordStep r c s) := by
  unfold wordStep
  split
  · exact lined_token h _ _ (h.advance _)
  simp only
  split
  · exact lined_token h _ _ (h.advance _)
  split
  · exact lined_token h _ _ (h.advance _)
  split
  · exact punctuationStep_lined h c
  split
  · exact lined_token h _ _ (h.advance _)
  split
  · exact lined_silent (((h.openBracket ['"']).enter .string).advance 1)
  · exact .error ⟨h.line, by simp⟩

theorem expressionStep_lined (h : s.InLines last) : Lined last (expressionStep r s) := by
  unfold expressionStep
  have hbehind := h.advance (s.rest.takeWhile Text.isBlank).length
  simp only
  split
  · split
    · exact lined_silent hbehind
    · exact .error (foundIn_unclosedTag hbehind)
  · exact wordStep_lined hbehind _

theorem closeOrExpression_lined (h : s.InLines last) (close : Pattern) (kind : TokenKind)
    (closing : List Char) : Lined last (closeOrExpression r close kind closing s) := by
  unfold closeOrExpression
  split
  · exact lined_token h _ _ (h.advance _).leave
  · exact expressionStep_lined h

theorem interpolationStep_lined (h : s.InLines last) : Lined last (interpolationStep r s) := by
  unfold interpolationStep
  split
  · exact expressionStep_lined h
  · next innermost outer hs =>
    split
    · exact lined_token h _ _ ((h.closeBracket hs).advance _).leave
    · exact expressionStep_lined h

theorem stringStep_lined (h : s.InLines last) : Lined last (stringStep r s) := by
  unfold stringStep
  split
  · exact lined_token h _ _ (((h.openBracket _).advance _).enter .interpolation)
  simp only
  split
  · exact lined_token h _ _ (h.advance _)
  split
  · split
    · exact lined_silent (h.leave.advance 1)
    · next innermost outer hs =>
      split
      · exact lined_silent ((h.closeBracket hs).leave.advance 1)
      · exact .error ⟨h.innermost hs, by simp⟩
  · exact .error ⟨h.line, by simp⟩
  · exact .error ⟨h.line, by simp⟩

inductive Failure.IsIn (last : Nat) : Failure → Prop
  | rejected {fault : SyntaxFault} {line : Nat} (h : FaultAt last fault line) :
      IsIn last (.rejected (fault, line))

theorem Lined.rejected {x : Except Located Piece} (h : Lined last x) :
    ComesTo (Failure.IsIn last) (Piece.InLines last) (x.mapError .rejected) :=
  h.mapError fun _ hfault => .rejected hfault

theorem partStep_lined (h : s.InLines last) (hplace : InTag s.nesting) :
    ComesTo (Failure.IsIn last) (Piece.InLines last) (partStep r s) := by
  unfold partStep
  split
  · next hnest => simp [hnest, InTag] at hplace
  · exact (closeOrExpression_lined h _ _ _).rejected
  · exact (closeOrExpression_lined h _ _ _).rejected
  · exact (stringStep_lined h).rejected
  · exact (interpolationStep_lined h).rejected
  · next hnest => simp [hnest, InTag] at hplace

theorem dropStep_lined_of_text (h : s.InLines last) (hplace : s.nesting = []) :
    ComesTo (Failure.IsIn last) (Piece.InLines last) (dropStep r s) := by
  have hdata := dataStep_lined (r := r) h (realSearch r)
  unfold dropStep
  simp only [hplace]
  split
  · next hfault => exact .error (.rejected (hdata.of_error hfault))
  · next hopen => exact .error (.rejected ⟨(hdata.of_ok hopen).state.line, by simp⟩)
  · next hlexed => exact .ok (hdata.of_ok hlexed)

theorem keepStep_lined_of_text (h : s.InLines last) (hplace : s.nesting = []) :
    ComesTo (Failure.IsIn last) (Piece.InLines last) (keepStep r s) := by
  have hdata := dataStep_lined (r := r) h armedSearch
  unfold keepStep
  simp only [hplace]
  split
  · next hfault => exact .error (.rejected (hdata.of_error hfault))
  · next hopen =>
    have hpiece := hdata.of_ok hopen
    exact .ok ⟨hpiece.tokens, hpiece.state.enter .comment⟩
  · next hlexed => exact .ok (hdata.of_ok hlexed)

/-- A step from where a lexer can stand fails with a fault only. -/
theorem step_lined (h : s.InLines last) (hplaced : Placed comments s.nesting) :
    ComesTo (Failure.IsIn last) (Piece.InLines last) (step r comments s) := by
  generalize hnest : s.nesting = nesting at hplaced
  cases hplaced with
  | text =>
    cases comments with
    | drop => exact dropStep_lined_of_text h hnest
    | keep => exact keepStep_lined_of_text h hnest
  | tag htag =>
    rw [← hnest] at htag
    rw [step_of_inTag htag]
    exact partStep_lined h htag
  | comment hkeep =>
    subst hkeep
    simp only [step, keepStep, hnest]
    exact (commentStep_lined h).rejected

/-- Every step keeps the lines, and where the lexer can stand. -/
theorem run_lined (hs : Sound comments s) (h : s.InLines last) (k : Nat) :
    ComesTo (Failure.IsIn last) (Piece.InLines last) (run r comments k s) := by
  induction k generalizing s with
  | zero => exact .ok ⟨.nil, h⟩
  | succ k ih =>
    cases hdone : isDone comments s with
    | true =>
      rw [run_done hdone]
      exact .ok ⟨.nil, h⟩
    | false =>
      have hfirst := step_lined (r := r) h hs.placed
      cases hstep : step r comments s with
      | error e =>
        rw [run_succ_error hdone hstep]
        exact .error (hfirst.of_error hstep)
      | ok piece =>
        obtain ⟨tokens, u⟩ := piece
        have hpiece := hfirst.of_ok hstep
        rw [run_succ hdone hstep]
        apply (ih (hs.step hdone hstep) hpiece.state).map
        intro more hmore
        exact ⟨hpiece.tokens.append hmore.tokens, hmore.state⟩

theorem finish_lined (h : s.InLines last) :
    ComesTo (FoundIn last) (fun eof => IsLine last eof.line) (finish s) := by
  unfold finish
  split
  · next hs => exact .error ⟨h.innermost hs, by simp⟩
  · exact .error (foundIn_unclosedTag h)
  · exact .ok h.line

/-- The tokens of a text stand on its lines, and so does the fault that there is instead. -/
theorem tokens_lined (lexer : Lexer) (code : List Char) :
    ComesTo (Failure.IsIn (1 + code.count '\n')) (OnLines (1 + code.count '\n'))
      (lexer.tokens code) := by
  rw [tokens_eq_bind]
  apply (run_lined (sound_start _ _ code) (.start lexer.rules code) (code.length + 1)).bind
  intro piece hpiece
  apply ((finish_lined hpiece.state).mapError fun _ hfault => .rejected hfault).map
  intro eof heof
  exact hpiece.tokens.append (.singleton heof)

end Lexer

/-- The number of lines of a template, of which all but the last end with a line break. -/
def Source.lineCount (source : Source) : Nat :=
  1 + (Lexer.unifyBreaks source.code.toList).count '\n'

inductive LexError.IsIn (last : Nat) : LexError → Prop
  | rejected {e : SyntaxError} (h : e.IsIn last) : IsIn last (.rejected e)

namespace TokenStream

theorem onLines_closeList {last : Nat} {tokens : List Token} (h : OnLines last tokens)
    (hlast : 1 ≤ last) : OnLines last (closeList tokens) := by
  unfold closeList
  split
  · exact .singleton ⟨Nat.le_refl 1, hlast⟩
  · next t ht =>
    split
    · exact h
    · exact h.append (.singleton (h t (List.mem_of_getLast? ht)))

end TokenStream

/-- Reading a template into tokens stays on its lines. -/
theorem Lexer.tokenize_lined (lexer : Lexer) (source : Source) :
    ComesTo (LexError.IsIn source.lineCount) (fun stream => OnLines source.lineCount stream.tokens)
      (lexer.tokenize source) := by
  rw [tokenize_eq_bind]
  apply ((tokens_lined lexer (unifyBreaks source.code.toList)).mapError _).map
  · intro tokens htokens
    rw [TokenStream.tokens_ofTokens]
    exact TokenStream.onLines_closeList htokens (Nat.le_add_right 1 _)
  · rintro _ ⟨hfault⟩
    exact .rejected hfault

end TemplateEngine
