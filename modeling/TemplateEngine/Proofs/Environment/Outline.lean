import TemplateEngine.Environment
import TemplateEngine.Proofs.Document.Outline
import TemplateEngine.Proofs.Lexer.Runs

/-!
What a template says and what its document keeps. Main statement: the texts, print tags, comments
and blocks of the document are those among the tokens of the template, in the same order.
-/

namespace TemplateEngine

theorem Lexer.before_of_tokenize {lexer : Lexer} {source : Source} {stream : TokenStream}
    (h : lexer.tokenize source = .ok stream) : stream.before = [] := by
  rw [tokenize_eq_bind] at h
  obtain ⟨tokens, -, rfl⟩ := map_eq_ok.1 h
  exact TokenStream.before_ofTokens tokens source.name

namespace Environment

variable {env : Environment} {source : Source} {document : Document}

theorem parseSource_eq_ok (h : env.parseSource source = .ok document) :
    ∃ stream, env.tokenize source = .ok stream ∧ stream.before = [] ∧
      Document.read env.tags stream = .ok document := by
  unfold parseSource at h
  cases hstream : env.tokenize source with
  | error e =>
    rw [hstream] at h
    cases h
  | ok stream =>
    rw [hstream] at h
    exact ⟨stream, rfl, Lexer.before_of_tokenize (mapError_eq_ok.1 hstream), mapError_eq_ok.1 h⟩

/-- Whatever the settings, reading a template loses, repeats and rearranges nothing: the parts of
the document are those that its tokens show from left to right, and the comments of the document are
the comments among them. -/
theorem outline_eq_outlineFrom_tokens (htags : .here ∉ env.tags.members)
    (h : env.parseSource source = .ok document) :
    ∃ stream, env.tokenize source = .ok stream ∧
      document.outline = outlineFrom .apart stream.tokens ∧
      document.comments = (outlineFrom .apart stream.tokens).filterMap Part.comment? := by
  obtain ⟨stream, hstream, hbefore, hread⟩ := parseSource_eq_ok h
  have houtline : document.outline = outlineFrom .apart stream.tokens := by
    rw [TokenStream.tokens_eq_ahead hbefore, Document.outline_eq_of_read htags hread]
  refine ⟨stream, hstream, houtline, ?_⟩
  rw [document.comments_eq_filterMap_outline, houtline]

/-- Bodies inside of bodies, a comment between delimiters and one in a tag, and a block in short
form. -/
theorem outline_eq_outlineFrom_tokens_nested :
    ∃ (env : Environment) (source : Source) (document : Document),
      withComments {} = .ok env ∧ .here ∉ env.tags.members ∧
      env.parseSource source = .ok document ∧
      document.outline =
        [.text 1 "a", .comment ⟨1, " b ", false⟩, .block "c", .print, .text 1 "d", .print,
          .text 1 "e", .comment ⟨1, "f", true⟩] ∧
      ∃ stream, env.tokenize source = .ok stream ∧
        document.outline = outlineFrom .apart stream.tokens ∧
        document.comments = (outlineFrom .apart stream.tokens).filterMap Part.comment? := by
  let source : Source :=
    ⟨"page", "a\x7b# b #\x7d\x7b% if x %\x7d\x7b% block c y %\x7d\x7b% else %\x7d" ++
      "\x7b% for i in j %\x7dd\x7b% endfor %\x7d\x7b\x7b x \x7d\x7de\x7b% endif %\x7d" ++
      "\x7b% comment 'f' %\x7d"⟩
  obtain ⟨env, henv, htags⟩ : ∃ env, withComments {} = .ok env ∧ .here ∉ env.tags.members :=
    ⟨_, rfl, by decide⟩
  have hread : (withComments {} >>= fun env => env.parseSource source).map Document.outline =
      .ok [.text 1 "a", .comment ⟨1, " b ", false⟩, .block "c", .print, .text 1 "d", .print,
        .text 1 "e", .comment ⟨1, "f", true⟩] := by
    decide +kernel
  rw [henv, ok_bind] at hread
  obtain ⟨document, hdocument, houtline⟩ := map_eq_ok.1 hread
  exact ⟨env, source, document, henv, htags, hdocument, houtline,
    outline_eq_outlineFrom_tokens htags hdocument⟩

end Environment

end TemplateEngine
