import TemplateEngine.Environment
import TemplateEngine.Proofs.Document.Comments

/-!
Environments that keep comments. Main statement: an environment that knows the tag of comments gives
the same outputs, scripts and errors whether its lexer keeps comments or passes over them, and
documents that differ by hidden comments.
-/

namespace TemplateEngine.Environment

theorem ofOptions_eq_ok {options : Options} {env : Environment} (h : ofOptions options = .ok env) :
    ∃ r, Lexer.Rules.ofOptions? options.lexer = some r ∧ env.lexer = ⟨r, .drop⟩ ∧
      env.lexerOptions = options.lexer ∧ env.tags = .builtins := by
  unfold ofOptions at h
  split at h
  · simp at h
  · next lexer hlexer =>
    obtain ⟨r, hr, rfl⟩ := Lexer.ofOptions_eq_ok.1 hlexer
    obtain rfl := Except.ok.inj h
    exact ⟨r, hr, rfl, rfl, rfl⟩

theorem find?_comment_insert (tags : TagSet) (h : tags = .builtins) :
    (tags.insert .comment).find? "comment" = some .comment := by
  rw [h]
  rfl

structure SameButComments (a b : Environment) (r : Lexer.Rules) : Prop where
  dropping : a.lexer = ⟨r, .drop⟩
  keeping : b = a.withLexer ⟨r, .keep⟩
  knowsTag : a.tags.find? "comment" = some .comment

variable {a b : Environment} {r : Lexer.Rules}

theorem SameButComments.tokenize_agree (h : SameButComments a b r) (source : Source) :
    Agree (Lexer.SameStart r.commentPair) (a.tokenize source) (b.tokenize source) := by
  unfold tokenize
  rw [h.keeping, h.dropping]
  exact (Lexer.tokenize_agree r source).mapError _

theorem SameButComments.parseSource_agree (h : SameButComments a b r) (source : Source) :
    Agree (fun x y => x = y.visible) (a.parseSource source) (b.parseSource source) := by
  unfold parseSource
  apply (h.tokenize_agree source).bind
  intro dropped kept hstart
  have htags : b.tags = a.tags := by
    rw [h.keeping]
    rfl
  unfold parse
  rw [htags]
  exact (Document.read_agree h.knowsTag hstart).mapError _

theorem SameButComments.compileSource_eq (h : SameButComments a b r) (source : Source) :
    a.compileSource source = b.compileSource source := by
  have hoptions : b.scriptOptions = a.scriptOptions := by
    rw [h.keeping]
    rfl
  unfold compileSource
  apply (h.parseSource_agree source).bind_eq
  intro document document' hvisible
  rw [compile, compile, hoptions, hvisible, Script.ofDocument_visible]

theorem SameButComments.render_eq (h : SameButComments a b r) (source : Source) (context : Json) :
    a.render source context = b.render source context := by
  have hoptions : b.renderOptions = a.renderOptions := by
    rw [h.keeping]
    rfl
  unfold render
  apply (h.parseSource_agree source).bind_eq
  intro document document' hvisible
  rw [hoptions, hvisible, Render.ofDocument_visible]

/-- Keeping comments changes no error, no output and no script of an environment that knows their
tag, and adds nothing but hidden comments to its documents. -/
theorem keepComments_transparent {options : Options} {dropping : Environment}
    (hdropping : (ofOptions options).map addCommentExtension = .ok dropping) :
    ∃ keeping, dropping.keepComments = .ok keeping ∧ ∀ source,
      (∀ e, dropping.tokenize source = .error e ↔ keeping.tokenize source = .error e) ∧
      dropping.parseSource source = (keeping.parseSource source).map Document.visible ∧
      dropping.compileSource source = keeping.compileSource source ∧
      ∀ context, dropping.render source context = keeping.render source context := by
  obtain ⟨base, hbase, rfl⟩ := map_eq_ok.1 hdropping
  obtain ⟨r, hr, hlexer, hoptions, htags⟩ := ofOptions_eq_ok hbase
  have hkeep : base.addCommentExtension.keepComments =
      .ok (base.addCommentExtension.withLexer ⟨r, .keep⟩) := by
    have hlexer : Lexer.ofOptions base.addCommentExtension.lexerOptions .keep = .ok ⟨r, .keep⟩ :=
      Lexer.ofOptions_eq_ok.2 ⟨r, by rw [← hr, ← hoptions]; rfl, rfl⟩
    unfold keepComments
    rw [hlexer]
  have h : SameButComments base.addCommentExtension
      (base.addCommentExtension.withLexer ⟨r, .keep⟩) r :=
    ⟨hlexer, rfl, find?_comment_insert base.tags htags⟩
  refine ⟨_, hkeep, fun source => ?_⟩
  exact ⟨(h.tokenize_agree source).error_iff, (h.parseSource_agree source).eq_map,
    h.compileSource_eq source, h.render_eq source⟩

/-- The default settings make an environment. -/
theorem keepComments_transparent_default :
    ∃ dropping keeping, (ofOptions {}).map addCommentExtension = .ok dropping ∧
      dropping.keepComments = .ok keeping ∧ ∀ source,
        dropping.parseSource source = (keeping.parseSource source).map Document.visible ∧
        ∀ context, dropping.render source context = keeping.render source context := by
  have hdropping : ∃ dropping, (ofOptions {}).map addCommentExtension = .ok dropping := ⟨_, rfl⟩
  obtain ⟨dropping, hdropping⟩ := hdropping
  obtain ⟨keeping, hkeep, hsame⟩ := keepComments_transparent hdropping
  refine ⟨dropping, keeping, hdropping, hkeep, ?_⟩
  intro source
  exact ⟨(hsame source).2.1, (hsame source).2.2.2⟩

end TemplateEngine.Environment
