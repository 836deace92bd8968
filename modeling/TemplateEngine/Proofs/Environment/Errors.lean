import TemplateEngine.Environment
import TemplateEngine.Proofs.Document.Lines
import TemplateEngine.Proofs.Lexer.Lines
import TemplateEngine.Proofs.Render.Errors

/-!
The errors of environments. Main statement: reading and rendering a template fails because its lexer
or its parser rejects the template or because an expression in it fails, and the error has the line
of the template where this was found.
-/

namespace TemplateEngine

inductive EngineError.IsIn (last : Nat) : EngineError → Prop
  | lex {e : LexError} (h : e.IsIn last) : IsIn last (.lex e)
  | parse {e : SyntaxError} (h : e.IsIn last) : IsIn last (.parse (.rejected e))
  | render {e : RenderError} (h : IsLine last e.line) : IsIn last (.render e)

/-- An error that points into a template: the template is rejected, or an expression in it fails,
and the error knows the line. -/
structure EngineError.PointsInto (source : Source) (e : EngineError) : Prop where
  cause : (∃ reason, e = .lex (.rejected reason) ∧ reason.fault ≠ .outOfSteps) ∨
    (∃ reason, e = .parse (.rejected reason) ∧ reason.fault ≠ .outOfSteps) ∨
      ∃ reason, e = .render reason
  line : ∃ n, e.line? = some n ∧ 1 ≤ n ∧
    n ≤ 1 + (Lexer.unifyBreaks source.code.toList).count '\n'

theorem EngineError.IsIn.pointsInto {source : Source} {e : EngineError}
    (h : e.IsIn source.lineCount) : e.PointsInto source := by
  cases h with
  | lex h =>
    obtain ⟨h⟩ := h
    exact ⟨.inl ⟨_, rfl, h.fault⟩, _, rfl, h.line⟩
  | parse h => exact ⟨.inr (.inl ⟨_, rfl, h.fault⟩), _, rfl, h.line⟩
  | render h => exact ⟨.inr (.inr ⟨_, rfl⟩), _, rfl, h⟩

namespace Environment

variable (env : Environment) (source : Source)

theorem tokenize_comesTo :
    ComesTo (EngineError.IsIn source.lineCount)
      (fun stream => OnLines source.lineCount stream.tokens) (env.tokenize source) :=
  (env.lexer.tokenize_lined source).mapError fun _ h => .lex h

theorem parseSource_comesTo :
    ComesTo (EngineError.IsIn source.lineCount)
      (fun document => ExprsOnLines source.lineCount document.exprs) (env.parseSource source) := by
  unfold parseSource
  apply (tokenize_comesTo env source).bind
  intro stream hstream
  have hahead : OnLines source.lineCount stream.ahead := fun t ht =>
    hstream t (by
      rw [TokenStream.tokens]
      exact List.mem_append_right _ ht)
  exact (Document.read_comesTo env.tags hahead).mapError fun _ h => .parse h

/-- An expression that fails has a line of the template that it was read from. -/
theorem render_comesTo (context : Json) :
    ComesTo (EngineError.IsIn source.lineCount) (fun _ => True) (env.render source context) := by
  unfold render
  apply (parseSource_comesTo env source).bind
  intro document hdocument
  apply (Render.failsIn_ofDocument env.renderOptions document context).mapError
  rintro e ⟨part, hpart, habout⟩
  exact .render (habout.line ▸ hdocument part hpart)

variable {env source}

/-- Whatever goes wrong with a template, the error points into it. -/
theorem pointsInto_of_error {context : Json} {e : EngineError}
    (h : env.tokenize source = .error e ∨ env.parseSource source = .error e ∨
      env.render source context = .error e) : e.PointsInto source := by
  apply EngineError.IsIn.pointsInto
  rcases h with h | h | h
  · exact (tokenize_comesTo env source).of_error h
  · exact (parseSource_comesTo env source).of_error h
  · exact (render_comesTo env source context).of_error h

/-- With line breaks of three kinds: a bracket that was opened on the second line is still open at
the end, and a filter on that line is not known. -/
theorem pointsInto_of_error_secondLine :
    ∃ env, ofOptions {} = .ok env ∧
      env.tokenize ⟨"page", "a\r\x7b\x7b [\nx"⟩ =
        .error (.lex (.rejected ⟨.unclosed "[", 2, "page"⟩)) ∧
      (EngineError.lex (.rejected ⟨.unclosed "[", 2, "page"⟩)).PointsInto
        ⟨"page", "a\r\x7b\x7b [\nx"⟩ ∧
      env.render ⟨"page", "a\r\n\x7b\x7b x|none \x7d\x7d\r"⟩ (.object []) =
        .error (.render (.unknownFilter "none" 2)) ∧
      (EngineError.render (.unknownFilter "none" 2)).PointsInto
        ⟨"page", "a\r\n\x7b\x7b x|none \x7d\x7d\r"⟩ := by
  obtain ⟨env, henv, htokenize⟩ : ∃ env, ofOptions {} = .ok env ∧
      env.tokenize ⟨"page", "a\r\x7b\x7b [\nx"⟩ =
        .error (.lex (.rejected ⟨.unclosed "[", 2, "page"⟩)) :=
    ⟨_, rfl, rfl⟩
  have hrender : (ofOptions {} >>= fun env =>
      env.render ⟨"page", "a\r\n\x7b\x7b x|none \x7d\x7d\r"⟩ (.object [])) =
        .error (.render (.unknownFilter "none" 2)) := by
    decide +kernel
  rw [henv, ok_bind] at hrender
  refine ⟨env, henv, htokenize, ?_, hrender, pointsInto_of_error (.inr (.inr hrender))⟩
  exact pointsInto_of_error (.inl htokenize : _ ∨ _ ∨ env.render _ .null = _)

end Environment

end TemplateEngine
