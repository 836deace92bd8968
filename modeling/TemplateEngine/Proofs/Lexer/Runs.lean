import TemplateEngine.Lexer
import TemplateEngine.Proofs.Agreement

/-!
Runs of a lexer step by step, and reading a template as a run with what comes before and after it.
-/

namespace TemplateEngine.Lexer

def Piece.after (tokens : List Token) (piece : Piece) : Piece :=
  (tokens ++ piece.1, piece.2)

theorem map_after_after (first second : List Token) (x : Except Failure Piece) :
    (x.map (Piece.after second)).map (Piece.after first) =
      x.map (Piece.after (first ++ second)) := by
  cases x <;> simp [Except.map, Piece.after]

/-- A run whose next step succeeds. -/
theorem run_succ {r : Rules} {comments : Comments} {s t : State} {tokens : List Token}
    (hdone : isDone comments s = false) (h : step r comments s = .ok (tokens, t)) (steps : Nat) :
    run r comments (steps + 1) s = (run r comments steps t).map (Piece.after tokens) := by
  simp only [run, hdone, h, Bool.false_eq_true, if_false]
  cases run r comments steps t <;> rfl

theorem run_succ_error {r : Rules} {comments : Comments} {s : State} {e : Failure}
    (hdone : isDone comments s = false) (h : step r comments s = .error e) (steps : Nat) :
    run r comments (steps + 1) s = .error e := by
  simp only [run, hdone, h, Bool.false_eq_true, if_false]

theorem run_done {r : Rules} {comments : Comments} {s : State} (hdone : isDone comments s = true)
    (steps : Nat) : run r comments steps s = .ok ([], s) := by
  cases steps with
  | zero => rfl
  | succ steps => simp [run, hdone]

theorem isDone_eq_false {comments : Comments} {s : State} (hs : s.rest ≠ []) :
    isDone comments s = false := by
  cases comments <;> simp [isDone, hs]

theorem tokens_eq_bind (lexer : Lexer) (code : List Char) :
    lexer.tokens code =
      run lexer.rules lexer.comments (code.length + 1) (.start lexer.rules code) >>= fun piece =>
        ((finish piece.2).mapError Failure.rejected).map fun eof => piece.1 ++ [eof] := by
  unfold tokens
  cases run lexer.rules lexer.comments (code.length + 1) (.start lexer.rules code) with
  | error e => rfl
  | ok piece =>
    show _ = ((finish piece.2).mapError Failure.rejected).map _
    cases h : finish piece.2 <;> simp [h, Except.map]

theorem tokenize_eq_bind (lexer : Lexer) (source : Source) :
    lexer.tokenize source =
      ((lexer.tokens (unifyBreaks source.code.toList)).mapError fun failure =>
          match failure with
          | .rejected (fault, line) => LexError.rejected ⟨fault, line, source.name⟩
          | .invalidMode mode => .invalidMode mode).map
        (.ofTokens · source.name) := by
  unfold tokenize
  rcases h : lexer.tokens (unifyBreaks source.code.toList) with (⟨fault, line⟩ | mode) | tokens <;>
    simp [Except.map]

theorem ofOptions_eq_ok {options : Options} {comments : Comments} {lexer : Lexer} :
    ofOptions options comments = .ok lexer ↔
      ∃ r, Rules.ofOptions? options = some r ∧ lexer = ⟨r, comments⟩ := by
  unfold ofOptions
  cases Rules.ofOptions? options <;> simp [eq_comm]

end TemplateEngine.Lexer
