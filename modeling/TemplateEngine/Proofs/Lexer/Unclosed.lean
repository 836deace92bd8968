import TemplateEngine.Proofs.Lexer.Brackets
import TemplateEngine.Proofs.Lexer.Strings
import TemplateEngine.Proofs.Lexer.TagStarts

/-!
Brackets that are open at the end of a template. Main statement: where only white space is left and
a bracket is open, a lexer with the default settings gives the fault of that bracket if nothing is
left or inside a string, and the fault of the open tag anywhere else.
-/

namespace TemplateEngine.Lexer

variable {r : Rules} {comments : Comments} {s t : State} {tokens before : List Token}
  {cs opening : List Char} {b : Bracket} {outer : List Bracket}

/-- The openers of brackets and strings, as texts. -/
def openerTexts : List String :=
  ["(", "[", "\x7b", "\""]

theorem mem_openerTexts {c : Char} (hc : isOpener c = true) : String.ofList [c] ∈ openerTexts := by
  simp only [isOpener, Bool.or_eq_true, beq_iff_eq] at hc
  rcases hc with (rfl | rfl) | rfl <;> decide

/-- The names of tags are no openers. -/
theorem unclosedTag_ne {opener : String} (h : opener ∈ "#\x7b" :: openerTexts) :
    (unclosedTag s).1 ≠ .unclosed opener := by
  intro hfault
  obtain rfl := SyntaxFault.unclosed.inj hfault
  split at h <;> exact absurd h (by decide)

theorem Begun.opener_mem {delimiters : String × String} {frames : List Frame} {ts : List Token}
    (h : Begun comments delimiters frames ts) :
    ∀ opener ∈ frames.filterMap (Frame.opener? opening),
      String.ofList opener ∈ openerTexts ∨ opener = opening := by
  induction h with
  | items | comment | print | block => simp [Frame.opener?]
  | bracket _ _ hc _ _ _ ih =>
    exact List.forall_mem_cons.2 ⟨.inl (mem_openerTexts hc), ih⟩
  | string _ _ ih =>
    exact List.forall_mem_cons.2 ⟨.inl (by decide), ih⟩
  | interpolation _ _ _ ih =>
    exact List.forall_mem_cons.2 ⟨.inr rfl, ih⟩

/-- Every open bracket is a bracket, a quote or the start of an interpolation. -/
theorem WellBegun.opener_mem (h : WellBegun r comments before s) (hb : b ∈ s.brackets) :
    String.ofList b.opener ∈ openerTexts ∨ b.opener = r.interpolation.opening := by
  obtain ⟨frames, hbegun, hfits⟩ := h
  exact hbegun.opener_mem _ (hfits.brackets ▸ List.mem_map_of_mem hb)

/-- Brackets are only open inside a tag. -/
theorem WellBegun.inTag (h : WellBegun r comments before s) (hs : Sound comments s)
    (hne : s.brackets ≠ []) : InTag s.nesting := by
  have hplaced := hs.placed
  generalize hnest : s.nesting = nesting at hplaced
  cases hplaced with
  | text => exact absurd (h.brackets_eq_nil hnest) hne
  | tag htag => exact htag
  | comment =>
    obtain ⟨frames, hbegun, hfits⟩ := h
    obtain rfl := hbegun.eq_comment_of_nesting (hfits.nesting.trans hnest)
    exact absurd (List.map_eq_nil_iff.1 hfits.brackets.symm) hne

def Blank (cs : List Char) : Prop :=
  ∀ c ∈ cs, Text.isBlank c = true

theorem Blank.not_isPrefix (h : Blank cs) {text : List Char}
    (htext : ∃ c ∈ text, Text.isBlank c = false) : ¬ text <+: cs := by
  intro hfront
  obtain ⟨c, hc, hblank⟩ := htext
  simp [h c (hfront.subset hc)] at hblank

theorem Blank.drop (h : Blank cs) (n : Nat) : Blank (cs.drop n) :=
  fun c hc => h c (List.mem_of_mem_drop hc)

/-- White space is plain text of a string. -/
theorem Blank.plainLength_eq (h : Blank cs) (hopening : ∃ c ∈ opening, Text.isBlank c = false) :
    plainLength opening cs = cs.length := by
  induction cs with
  | nil => rfl
  | cons c cs ih =>
    have hc : Text.isBlank c = true := h c List.mem_cons_self
    have htail : Blank cs := fun d hd => h d (List.mem_cons_of_mem _ hd)
    rw [plainLength_cons _ _ (h.not_isPrefix hopening), ih htail, List.length_cons, Nat.add_comm]
    all_goals
      rintro rfl
      exact absurd hc (by decide)

theorem Blank.interpolationEnd_eq_none (h : Blank cs)
    (hclosing : ∃ c ∈ r.interpolation.closing, Text.isBlank c = false) :
    r.interpolationEnd.length? cs = none := by
  cases hlength : r.interpolationEnd.length? cs with
  | none => rfl
  | some n =>
    obtain ⟨m, -, k, hk, -⟩ := Pattern.mem_andThen.1 (List.mem_of_head? hlength)
    have hfront := Pattern.mem_literal hk
    exact absurd (hfront ▸ List.take_prefix _ _) ((h.drop m).not_isPrefix hclosing)

/-- In an expression white space up to the end of the text is the fault of the open tag. -/
theorem expressionStep_of_blank (hblank : Blank s.rest) (hs : s.rest ≠ []) :
    expressionStep r s = .error (unclosedTag s) := by
  have hall : s.rest.takeWhile Text.isBlank = s.rest := List.takeWhile_eq_self_iff.2 hblank
  have hpos : s.rest.length ≠ 0 := mt List.length_eq_zero_iff.1 hs
  have hend : (s.advance s.rest.length).rest = [] := by simp
  unfold expressionStep
  simp only [hall]
  rw [hend]
  simp only
  rw [if_neg hpos]
  rfl

structure Visible (r : Rules) : Prop where
  opening : ∃ c ∈ r.interpolation.opening, Text.isBlank c = false
  closing : ∃ c ∈ r.interpolation.closing, Text.isBlank c = false

/-- Outside of strings white space up to the end is the fault of the open tag, also if a bracket is
open. -/
theorem partStep_of_blank (hvisible : Visible r) (hin : InTag s.nesting) (hblank : Blank s.rest)
    (hs : s.rest ≠ []) (hbrackets : s.brackets = b :: outer) (hmode : s.mode ≠ .string) :
    partStep r s = .error (.rejected (unclosedTag s)) := by
  have hexpression := expressionStep_of_blank (r := r) hblank hs
  have hclose : ∀ (close : Pattern) (kind : TokenKind) (closing : List Char),
      closeOrExpression r close kind closing s = .error (unclosedTag s) := by
    intro close kind closing
    simp only [closeOrExpression, hbrackets, List.isEmpty_cons, Bool.false_eq_true, if_false,
      hexpression]
  unfold partStep
  split
  · next hnest => exact absurd hnest hin.ne_nil
  · rw [hclose, mapError_error]
  · rw [hclose, mapError_error]
  · next hnest => simp [State.mode, hnest, Nesting.mode] at hmode
  · simp only [interpolationStep, hbrackets, hblank.interpolationEnd_eq_none hvisible.closing,
      ite_self, hexpression, mapError_error]
  · next hnest =>
    rw [hnest] at hin
    exact hin.elim

/-- Inside a string white space up to the end is one more part of it. -/
theorem stringStep_of_blank (hvisible : Visible r) (hblank : Blank s.rest) (hs : s.rest ≠ []) :
    stringStep r s =
      .ok ([s.token .string (unescape s.rest)], s.advance s.rest.length) := by
  have hlength := hblank.plainLength_eq hvisible.opening
  rw [stringStep_plain (interpolationStart_eq_none_of_not_isPrefix
    (hblank.not_isPrefix hvisible.opening)) (by rwa [hlength, ne_eq, List.length_eq_zero_iff]),
    hlength, List.take_length]

theorem tokenize_eq_error {lexer : Lexer} {source : Source} {fault : SyntaxFault} {line : Nat} :
    lexer.tokenize source = .error (.rejected ⟨fault, line, source.name⟩) ↔
      lexer.tokens (unifyBreaks source.code.toList) = .error (.rejected (fault, line)) := by
  rw [tokenize_eq_bind]
  rcases lexer.tokens (unifyBreaks source.code.toList) with (⟨fault', line'⟩ | mode) | tokens
  · simp [Except.map]
  · simp [Except.map]
  · simp [Except.map]

def unclosedBracket (b : Bracket) : Located :=
  (.unclosed (String.ofList b.opener), b.line)

/-- Where only white space is left and a bracket is open, the lexer fails in one of two ways. -/
theorem tokens_of_blank (lexer : Lexer) {code : List Char} (hvisible : Visible lexer.rules)
    (hreaches : Reaches lexer.rules lexer.comments (.start lexer.rules code) tokens s)
    (hin : InTag s.nesting) (hblank : Blank s.rest) (hbrackets : s.brackets = b :: outer) :
    lexer.tokens code = .error (.rejected
      (if s.rest = [] ∨ s.mode = .string then unclosedBracket b else unclosedTag s)) := by
  have hend : ∀ {ts : List Token} {t : State},
      Reaches lexer.rules lexer.comments (.start lexer.rules code) ts t → InTag t.nesting →
      t.rest = [] → t.brackets = b :: outer →
      lexer.tokens code = .error (.rejected (unclosedBracket b)) := by
    intro ts t ht hin hrest hbrackets
    refine tokens_eq_error.2 ⟨ts, t, ht, .inr ⟨isDone_of_rest_eq_nil hrest (.inr hin), ?_⟩⟩
    rw [finish, hbrackets]
    rfl
  by_cases hrest : s.rest = []
  · rw [if_pos (.inl hrest)]
    exact hend hreaches hin hrest hbrackets
  have hdone : isDone lexer.comments s = false := isDone_eq_false hrest
  by_cases hmode : s.mode = .string
  · rw [if_pos (.inr hmode)]
    obtain ⟨outer', hnest⟩ := State.nesting_of_mode_string hmode
    have hstep : step lexer.rules lexer.comments s =
        .ok ([s.token .string (unescape s.rest)], s.advance s.rest.length) := by
      rw [step_of_inTag hin, partStep, hnest]
      exact mapError_eq_ok.2 (stringStep_of_blank hvisible hblank hrest)
    exact hend (hreaches.trans (.single hdone hstep)) hin (by simp) hbrackets
  · rw [if_neg (by simp [hrest, hmode])]
    refine tokens_eq_error.2 ⟨tokens, s, hreaches, .inl ⟨hdone, ?_⟩⟩
    rw [step_of_inTag hin]
    exact partStep_of_blank hvisible hin hblank hrest hbrackets hmode

/-- A template that comes to its end, white space aside, with an open bracket. It is a bracket, a
quote or the start of an interpolation. The error is that of the bracket, at its line, exactly if
the template ends right there or inside a string; otherwise it is that of the open tag. -/
theorem tokenize_unclosed_iff {lexer : Lexer} (hlexer : ofOptions {} comments = .ok lexer)
    (source : Source)
    (hreaches : Reaches lexer.rules comments
      (.start lexer.rules (unifyBreaks source.code.toList)) tokens s)
    (hblank : Blank s.rest) (hbrackets : s.brackets = b :: outer) :
    String.ofList b.opener ∈ "#\x7b" :: openerTexts ∧
    (lexer.tokenize source =
        .error (.rejected ⟨.unclosed (String.ofList b.opener), b.line, source.name⟩) ↔
      s.rest = [] ∨ s.mode = .string) ∧
    (s.rest ≠ [] → s.mode ≠ .string → lexer.tokenize source =
      .error (.rejected ⟨(unclosedTag s).1, (unclosedTag s).2, source.name⟩)) := by
  obtain ⟨r, hr, rfl⟩ := ofOptions_eq_ok.1 hlexer
  have hopening : String.ofList r.interpolation.opening = "#\x7b" :=
    Rules.interpolation_of_ofOptions? hr
  have hwell := wellBegun_of_reaches (distinct_of_not_mem (by rw [hopening]; decide)) hreaches
  have hin := hwell.inTag (hreaches.sound (sound_start r comments _)) (by simp [hbrackets])
  have hvisible : Visible r := by
    cases hr
    exact ⟨⟨'#', by decide, by decide⟩, ⟨'\x7d', by decide, by decide⟩⟩
  have hopener : String.ofList b.opener ∈ "#\x7b" :: openerTexts := by
    rcases hwell.opener_mem (b := b) (by simp [hbrackets]) with hmem | hmem
    · exact List.mem_cons_of_mem _ hmem
    · rw [hmem, hopening]
      exact List.mem_cons_self
  have htokens := tokens_of_blank ⟨r, comments⟩ hvisible hreaches hin hblank hbrackets
  refine ⟨hopener, ?_, fun hrest hmode => ?_⟩
  · rw [tokenize_eq_error, htokens]
    split
    · next hend => simp [hend, unclosedBracket]
    · next hend =>
      refine iff_of_false (fun heq => unclosedTag_ne (s := s) hopener ?_) hend
      exact congrArg Prod.fst (Failure.rejected.inj (Except.error.inj heq))
  · rw [tokenize_eq_error, htokens, if_neg (by simp [hrest, hmode])]

/-- A tag that ends right behind the name in its bracket. -/
theorem tokenize_unclosed_iff_name :
    ∃ lexer, ofOptions {} .drop = .ok lexer ∧
      lexer.tokenize ⟨"page", "\x7b\x7b\n(x"⟩ =
        .error (.rejected ⟨.unclosed "(", 2, "page"⟩) := by
  obtain ⟨lexer, tokens, s, hlexer, hreaches, hrest, hbrackets⟩ :
      ∃ lexer tokens s, ofOptions {} .drop = .ok lexer ∧
        Reaches lexer.rules .drop (.start lexer.rules (unifyBreaks "\x7b\x7b\n(x".toList))
          tokens s ∧
        s.rest = [] ∧ s.brackets = [⟨['('], 2⟩] :=
    ⟨_, _, _, rfl, .step (by decide) rfl (.step (by decide) rfl (.step (by decide) rfl
      (.refl _))), rfl, rfl⟩
  refine ⟨lexer, hlexer, ?_⟩
  exact (tokenize_unclosed_iff hlexer ⟨"page", "\x7b\x7b\n(x"⟩ hreaches (by simp [Blank, hrest])
    hbrackets).2.1.2 (.inl hrest)

/-- One more space, and the error is that of the tag although the bracket is open. -/
theorem not_tokenize_unclosed_space :
    ∃ lexer tokens s, ofOptions {} .drop = .ok lexer ∧
      Reaches lexer.rules .drop (.start lexer.rules (unifyBreaks "\x7b\x7b\n(x ".toList)) tokens s ∧
      Blank s.rest ∧ s.brackets = [⟨['('], 2⟩] ∧
      lexer.tokenize ⟨"page", "\x7b\x7b\n(x "⟩ =
        .error (.rejected ⟨.unclosed "variable", 1, "page"⟩) ∧
      lexer.tokenize ⟨"page", "\x7b\x7b\n(x"⟩ =
        .error (.rejected ⟨.unclosed "(", 2, "page"⟩) := by
  refine ⟨_, _, _, rfl, .step (by decide) rfl (.step (by decide) rfl (.step (by decide) rfl
    (.refl _))), ?_, rfl, rfl, rfl⟩
  intro c hc
  obtain rfl := List.mem_singleton.1 hc
  rfl

end TemplateEngine.Lexer
