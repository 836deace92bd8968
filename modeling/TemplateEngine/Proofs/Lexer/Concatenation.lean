import TemplateEngine.Proofs.Lexer.Echoes

/-!
Templates behind each other. Main statement: under the default settings, a template behind one that
ends with a plain end of a print tag is read as it is alone, only some lines further down.
-/

namespace TemplateEngine.Lexer

variable {comments : Comments} {behind : List Char} {k : Nat} {s t u : State}
  {tokens more before : List Token}

theorem Reaches.of_done {r : Rules} (h : Reaches r comments s tokens t)
    (hdone : isDone comments s = true) : tokens = [] ∧ t = s := by
  cases h with
  | refl => exact ⟨rfl, rfl⟩
  | step hdone' => simp [hdone] at hdone'

theorem plainLength_opening {cs : List Char} (h : ['#', '\x7b'] <+: cs) :
    plainLength ['#', '\x7b'] cs = 0 := by
  obtain ⟨more, rfl⟩ := h
  simp [plainLength, List.isPrefixOf]

theorem interpolationStart_eq_none {cs : List Char} (h : plainLength ['#', '\x7b'] cs ≠ 0) :
    defaultRules.interpolationStart.length? cs = none := by
  cases hlength : defaultRules.interpolationStart.length? cs with
  | none => rfl
  | some n =>
    obtain ⟨m, hm, -⟩ := Pattern.mem_andThen.1 (List.mem_of_head? hlength)
    refine absurd (plainLength_opening ?_) h
    show defaultRules.interpolation.opening <+: cs
    rw [← Pattern.mem_literal hm]
    exact List.take_prefix m cs

theorem stringStep_to_end (comments : Comments) {outer : List Nesting}
    (hnest : s.nesting = .string :: outer) (hin : InTag outer) (hs : s.rest ≠ [])
    (hplain : plainLength ['#', '\x7b'] s.rest = s.rest.length) :
    ∃ x, step defaultRules comments s = .ok ([x], s.advance s.rest.length) := by
  have hne : plainLength defaultRules.interpolation.opening s.rest ≠ 0 := by
    have := List.length_pos_iff.2 hs
    show plainLength ['#', '\x7b'] s.rest ≠ 0
    omega
  have hin' : InTag s.nesting := by
    rw [hnest]
    exact hin
  refine ⟨s.token .string (unescape (s.rest.take s.rest.length)), ?_⟩
  rw [step_of_inTag hin']
  unfold partStep
  rw [hnest]
  simp only
  rw [stringStep_plain (interpolationStart_eq_none hne) hne]
  show _ = Except.ok ([s.token .string (unescape (s.rest.take s.rest.length))], _)
  rw [← hplain]
  rfl

/-- From the end of the text inside a tag there is no way out of it. -/
theorem Reaches.nesting_ne_nil {r : Rules} (h : Reaches r comments s tokens t)
    (hrest : s.rest = []) (hin : InTag s.nesting) : t.nesting ≠ [] := by
  obtain ⟨-, rfl⟩ := h.of_done (isDone_of_rest_eq_nil hrest (.inr hin))
  intro hnest
  rw [hnest] at hin
  exact hin

/-- Behind a lost piece a template does not end with a token other than text. -/
theorem Lost.kind_getLast? (h : Lost (tokens, s))
    (hreaches : Reaches defaultRules comments s more t) (hnest : t.nesting = []) :
    ∃ x ∈ (tokens ++ more).getLast?, x.kind = .text := by
  cases h with
  | text hrest hout hlast =>
    obtain ⟨rfl, -⟩ := hreaches.of_done (isDone_of_rest_eq_nil hrest (.inl hout))
    rwa [List.append_nil]
  | block hrest hblock =>
    have hin : InTag s.nesting := by
      rw [hblock]
      trivial
    exact absurd hnest (hreaches.nesting_ne_nil hrest hin)
  | @string _ _ outer hpart hin hplain =>
    have hin' : InTag s.nesting := by
      rw [hpart]
      exact hin
    by_cases hs : s.rest = []
    · exact absurd hnest (hreaches.nesting_ne_nil hs hin')
    · obtain ⟨x, hstep⟩ := stringStep_to_end comments hpart hin hs hplain
      cases hreaches with
      | refl => simp [hnest] at hpart
      | step _ hfirst hmore =>
        obtain ⟨-, rfl⟩ := Prod.mk.inj (Except.ok.inj (hstep.symm.trans hfirst))
        exact absurd hnest (hmore.nesting_ne_nil (by simp) hin')

theorem isDone_of_follows (h : Follows behind k s t) (hdone : isDone comments s = false) :
    isDone comments t = false := by
  by_cases hrest : s.rest = []
  · cases comments with
    | keep =>
      have hcomment : s.mode = .comment := by simpa [isDone, hrest] using hdone
      simp [isDone, h.mode, hcomment]
    | drop => simp [isDone, hrest] at hdone
  · exact isDone_eq_false (by simp [h.rest, hrest])

/-- What the whole text ends with guards its places. -/
theorem guarded_of_reaches {r : Rules} {code : List Char}
    (h : Reaches r comments (.start r code) tokens s) (hcode : Guarded behind code)
    (hs : s.rest ≠ []) : Guarded behind s.rest := by
  obtain ⟨passed, hpassed, -⟩ := standsIn_of_reaches h
  rcases hcode with hbehind | hend
  · exact .inl hbehind
  · exact .inr (hend.suffix ⟨passed, hpassed.symm⟩ hs)

/-- A run is followed by the second lexer, unless there is text behind and it does not come to the
end of a print tag. -/
theorem Reaches.follows {code code' : List Char} (hcode : Guarded behind code)
    (h : Reaches defaultRules comments s tokens u)
    (hs : Reaches defaultRules comments (.start defaultRules code) before s)
    (ht : Reaches defaultRules comments (.start defaultRules code') more t)
    (hfollows : Follows behind k s t)
    (hend : behind ≠ [] → u.nesting = [] ∧ ∀ x ∈ tokens.getLast?, x.kind ≠ .text) :
    ∃ v, Reaches defaultRules comments t (tokens.map (Token.shift k)) v ∧ Follows behind k u v := by
  induction h generalizing t before more with
  | refl => exact ⟨t, .refl t, hfollows⟩
  | @step s s' u tokens tokens' hdone hstep hmore ih =>
    have hsound := hs.sound (sound_start defaultRules comments code)
    have hecho := step_echo hsound hdone hfollows (fun hne => guarded_of_reaches hs hcode hne)
      fun hnest => ⟨tagsAhead_of_reaches hs hnest,
        tagsAhead_of_reaches ht (hfollows.nesting.trans hnest)⟩
    rw [hstep] at hecho
    have hdone' := isDone_of_follows hfollows hdone
    generalize hnext : Lexer.step defaultRules comments t = y at hecho
    cases hecho with
    | @piece _ _ t' h =>
      have hend' : behind ≠ [] → u.nesting = [] ∧ ∀ x ∈ tokens'.getLast?, x.kind ≠ .text := by
        intro hbehind
        obtain ⟨hnest, hlast⟩ := hend hbehind
        exact ⟨hnest, fun x hx => hlast x (by rw [List.getLast?_append, hx]; rfl)⟩
      obtain ⟨v, hv, hfollows'⟩ := ih (hs.trans (.single hdone hstep))
        (ht.trans (.single hdone' hnext)) h hend'
      refine ⟨v, ?_, hfollows'⟩
      rw [List.map_append]
      exact .step hdone' hnext hv
    | lost hbehind h =>
      obtain ⟨hnest, hlast⟩ := hend hbehind
      obtain ⟨x, hx, hkind⟩ := h.kind_getLast? hmore hnest
      exact absurd hkind (hlast x hx)

theorem finish_follows (h : Follows [] k s t) (hplace : s.nesting = [] ∨ InTag s.nesting) :
    finish t = ((finish s).map (Token.shift k)).mapError (shiftFault k) := by
  unfold finish
  rw [h.brackets, h.nesting]
  cases hbrackets : s.brackets with
  | cons innermost outer => rfl
  | nil =>
    cases hnest : s.nesting with
    | nil =>
      simp only [List.map_nil, h.token]
      rfl
    | cons part outer =>
      have hin : InTag s.nesting := hplace.resolve_left (by simp [hnest])
      simp only [List.map_nil, unclosedTag_shift h hin]
      rfl

theorem finish_eq_ok {eof : Token} (h : finish s = .ok eof) : s.brackets = [] ∧ s.nesting = [] := by
  unfold finish at h
  split at h
  · simp at h
  · simp at h
  · next hbrackets hnest => exact ⟨hbrackets, hnest⟩

theorem rest_eq_nil_of_isDone (hdone : isDone comments s = true) : s.rest = [] := by
  cases comments with
  | keep =>
    simp only [isDone, Bool.and_eq_true, List.isEmpty_iff] at hdone
    exact hdone.1
  | drop => simpa [isDone] using hdone

/-- Where a lexer is done it stands in text or inside a tag. -/
theorem Sound.placed_of_done (h : Sound comments s) (hdone : isDone comments s = true) :
    s.nesting = [] ∨ InTag s.nesting := by
  obtain ⟨-, hplaced⟩ := h
  generalize hnest : s.nesting = nesting at hplaced
  cases hplaced with
  | text => exact .inl rfl
  | tag htag => exact .inr htag
  | comment hkeep =>
    subst hkeep
    simp [isDone, State.mode, hnest, Nesting.mode] at hdone

/-- Behind the text of a closed print tag the lexer stands as at the start of a template. -/
theorem reaches_append {code : List Char} {eof : Token} (hcode : PrintEnd code)
    (hreaches : Reaches defaultRules comments (.start defaultRules code) tokens u)
    (hdone : isDone comments u = true) (hfinish : finish u = .ok eof)
    (hlast : ∀ x ∈ tokens.getLast?, x.kind ≠ .text) (behind : List Char) :
    ∃ v, Reaches defaultRules comments (.start defaultRules (code ++ behind)) tokens v ∧
      Follows [] (code.count '\n') (.start defaultRules behind) v := by
  obtain ⟨hbrackets, hnest⟩ := finish_eq_ok hfinish
  have hrest := rest_eq_nil_of_isDone hdone
  have hstart : Follows behind 0 (.start defaultRules code)
      (.start defaultRules (code ++ behind)) :=
    ⟨rfl, rfl, rfl, rfl, fun hin => hin.elim⟩
  obtain ⟨v, hv, hfollows⟩ := hreaches.follows (.inr hcode) (.refl _) (.refl _) hstart
    fun _ => ⟨hnest, hlast⟩
  have hshift : tokens.map (Token.shift 0) = tokens := List.map_id tokens
  rw [hshift] at hv
  obtain ⟨passed, hpassed, -, -, hline⟩ := standsIn_of_reaches hreaches
  rw [hrest, List.append_nil] at hpassed
  refine ⟨v, hv, ?_, ?_, ?_, ?_, fun hin => hin.elim⟩
  · rw [hfollows.rest, hrest, List.nil_append, List.append_nil]
    rfl
  · rw [hfollows.line, hline, hpassed]
    rfl
  · rw [hfollows.nesting, hnest]
    rfl
  · rw [hfollows.brackets, hbrackets]
    rfl

theorem isDone_eq_of_follows (h : Follows [] k s t) : isDone comments t = isDone comments s := by
  have hrest : t.rest = s.rest := by rw [h.rest, List.append_nil]
  cases comments <;> simp only [isDone, h.mode, hrest]

/-- A text behind that of a closed print tag is read as it is alone. -/
theorem tokens_append {code : List Char} {before : List Token} {closing eof : Token}
    (hcode : PrintEnd code)
    (h : Lexer.tokens ⟨defaultRules, comments⟩ code = .ok (before ++ [closing, eof]))
    (hclosing : closing.kind ≠ .text) (behind : List Char) :
    Lexer.tokens ⟨defaultRules, comments⟩ (code ++ behind) =
      ((Lexer.tokens ⟨defaultRules, comments⟩ behind).map fun ts =>
        before ++ closing :: ts.map (Token.shift (code.count '\n'))).mapError
          (Failure.shift (code.count '\n')) := by
  obtain ⟨first, u, end', hreaches, hdone, hfinish, hfirst⟩ := tokens_eq_ok.1 h
  obtain ⟨rfl, -⟩ : before ++ [closing] = first ∧ [eof] = [end'] :=
    List.append_inj' (by rw [← hfirst, List.append_assoc]; rfl) rfl
  have hlast : ∀ x ∈ (before ++ [closing]).getLast?, x.kind ≠ .text := by
    simpa using hclosing
  obtain ⟨v, hv, hfollows⟩ := reaches_append hcode hreaches hdone hfinish hlast behind
  have hsound := sound_start defaultRules comments behind
  have hmore : ∀ ts w, Reaches defaultRules comments (.start defaultRules behind) ts w →
      ∃ x, Reaches defaultRules comments (.start defaultRules (code ++ behind))
          (before ++ [closing] ++ ts.map (Token.shift (code.count '\n'))) x ∧
        Follows [] (code.count '\n') w x := by
    intro ts w hw
    obtain ⟨x, hx, hend⟩ := hw.follows (.inl rfl) (.refl _) hv hfollows fun hne => absurd rfl hne
    exact ⟨x, hv.trans hx, hend⟩
  cases hbehind : Lexer.tokens ⟨defaultRules, comments⟩ behind with
  | ok ts =>
    obtain ⟨second, w, eof, hw, hwdone, hwfinish, rfl⟩ := tokens_eq_ok.1 hbehind
    obtain ⟨x, hx, hend⟩ := hmore second w hw
    refine tokens_eq_ok.2 ⟨_, x, eof.shift (code.count '\n'), hx, ?_, ?_, ?_⟩
    · rw [isDone_eq_of_follows hend, hwdone]
    · rw [finish_follows hend ((hw.sound hsound).placed_of_done hwdone), hwfinish]
      rfl
    · simp
  | error e =>
    obtain ⟨second, w, hw, hcause⟩ := tokens_eq_error.1 hbehind
    obtain ⟨x, hx, hend⟩ := hmore second w hw
    refine tokens_eq_error.2 ⟨_, x, hx, ?_⟩
    rcases hcause with ⟨hwdone, hstep⟩ | ⟨hwdone, hwfinish⟩
    · left
      refine ⟨by rw [isDone_eq_of_follows hend, hwdone], ?_⟩
      have hecho := step_echo (hw.sound hsound) hwdone hend (fun _ => .inl rfl) fun hnest =>
        ⟨tagsAhead_of_reaches hw hnest, tagsAhead_of_reaches hx (hend.nesting.trans hnest)⟩
      rw [hstep] at hecho
      generalize hnext : Lexer.step defaultRules comments x = y at hecho
      cases hecho with
      | fault => rfl
      | refused hne => exact absurd rfl hne
    · right
      refine ⟨by rw [isDone_eq_of_follows hend, hwdone], ?_⟩
      rw [finish_follows hend ((hw.sound hsound).placed_of_done hwdone)]
      cases hlast : finish w with
      | ok eof => simp [hlast] at hwfinish
      | error fault =>
        rw [hlast] at hwfinish
        obtain rfl := Except.error.inj hwfinish
        rfl

theorem unifyBreaks_append (xs : List Char) {ys : List Char} (h : ys.head? ≠ some '\n') :
    unifyBreaks (xs ++ ys) = unifyBreaks xs ++ unifyBreaks ys := by
  fun_induction unifyBreaks xs with
  | case1 => rfl
  | case2 xs ih => simp [unifyBreaks, ih]
  | case3 xs hne ih =>
    rw [List.cons_append, unifyBreaks, ih, List.cons_append]
    intro cs hcs
    cases xs with
    | nil =>
      obtain rfl : ys = '\n' :: cs := hcs
      exact h rfl
    | cons x xs => exact hne xs (by rw [(List.cons.inj hcs).1])
  | case4 c xs hne hne' ih =>
    rw [List.cons_append, unifyBreaks, ih, List.cons_append]
    · exact fun cs hc _ => hne' hc
    · exact hne'

theorem mem_getLast?_cons_iff {c d : Char} {cs : List Char} :
    c ∈ (d :: cs).getLast? ↔ c ∈ cs.getLast? ∨ cs = [] ∧ c = d := by
  cases cs with
  | nil => simp [eq_comm]
  | cons e es => simp [List.getLast?_cons]

theorem unifyBreaks_eq_nil {cs : List Char} (h : unifyBreaks cs = []) : cs = [] := by
  revert h
  fun_cases unifyBreaks cs <;> simp

/-- Unified line breaks end with one, or with what the text ends with. -/
theorem eq_or_mem_getLast?_of_unifyBreaks {cs : List Char} :
    ∀ c ∈ (unifyBreaks cs).getLast?, c = '\n' ∨ c ∈ cs.getLast? := by
  fun_induction unifyBreaks cs with
  | case1 => simp
  | case2 cs ih =>
    intro c hc
    rcases mem_getLast?_cons_iff.1 hc with hc | ⟨-, rfl⟩
    · exact (ih c hc).imp_right fun hc =>
        mem_getLast?_cons_iff.2 (.inl (mem_getLast?_cons_iff.2 (.inl hc)))
    · exact .inl rfl
  | case3 cs hne ih =>
    intro c hc
    rcases mem_getLast?_cons_iff.1 hc with hc | ⟨-, rfl⟩
    · exact (ih c hc).imp_right fun hc => mem_getLast?_cons_iff.2 (.inl hc)
    · exact .inl rfl
  | case4 d cs hne hne' ih =>
    intro c hc
    rcases mem_getLast?_cons_iff.1 hc with hc | ⟨hnil, rfl⟩
    · exact (ih c hc).imp_right fun hc => mem_getLast?_cons_iff.2 (.inl hc)
    · exact .inr (mem_getLast?_cons_iff.2 (.inr ⟨unifyBreaks_eq_nil hnil, rfl⟩))

theorem suffix_concat_braces_iff {c : Char} {front : List Char} :
    [c, '\x7d', '\x7d'] <:+ front ++ ['\x7d', '\x7d'] ↔ c ∈ front.getLast? := by
  constructor
  · rintro ⟨more, hmore⟩
    have hsplit : more ++ [c] ++ ['\x7d', '\x7d'] = front ++ ['\x7d', '\x7d'] := by
      rw [List.append_assoc]
      exact hmore
    simp [← List.append_cancel_right hsplit]
  · intro hc
    obtain ⟨more, rfl⟩ := List.getLast?_eq_some_iff.1 hc
    exact ⟨more, by simp⟩

/-- Unified line breaks leave the end of a print tag alone. -/
theorem printEnd_unifyBreaks {cs : List Char} (hend : ['\x7d', '\x7d'] <:+ cs)
    (hall : ¬ ['-', '\x7d', '\x7d'] <:+ cs) (hline : ¬ ['~', '\x7d', '\x7d'] <:+ cs) :
    PrintEnd (unifyBreaks cs) ∧
      ∀ behind, unifyBreaks (cs ++ behind) = unifyBreaks cs ++ unifyBreaks behind := by
  obtain ⟨front, rfl⟩ := hend
  have hbraces : ∀ behind, unifyBreaks ('\x7d' :: '\x7d' :: behind) =
      '\x7d' :: '\x7d' :: unifyBreaks behind := fun _ => rfl
  have hcs : unifyBreaks (front ++ ['\x7d', '\x7d']) = unifyBreaks front ++ ['\x7d', '\x7d'] :=
    unifyBreaks_append front (by simp)
  have hmark : ∀ c ∈ (unifyBreaks front).getLast?, c ≠ '-' ∧ c ≠ '~' := by
    intro c hc
    rw [suffix_concat_braces_iff] at hall hline
    rcases eq_or_mem_getLast?_of_unifyBreaks c hc with rfl | hc
    · decide
    · constructor
      · rintro rfl
        exact hall hc
      · rintro rfl
        exact hline hc
  refine ⟨.inr ⟨?_, ?_, ?_⟩, fun behind => ?_⟩
  · rw [hcs]
    exact List.suffix_append _ _
  · rw [hcs, suffix_concat_braces_iff]
    exact fun hc => (hmark _ hc).1 rfl
  · rw [hcs, suffix_concat_braces_iff]
    exact fun hc => (hmark _ hc).2 rfl
  · rw [hcs, List.append_assoc, unifyBreaks_append front (by simp), List.append_assoc]
    rfl

def Failure.named (name : String) : Failure → LexError
  | rejected (fault, line) => .rejected ⟨fault, line, name⟩
  | invalidMode mode => .invalidMode mode

theorem Failure.named_shift (name : String) (k : Nat) (e : Failure) :
    (e.shift k).named name = (e.named name).shift k := by
  cases e <;> rfl

/-- The tokens of a stream are those of its template. -/
theorem map_tokens_tokenize (lexer : Lexer) (name code : String) :
    (lexer.tokenize ⟨name, code⟩).map TokenStream.tokens =
      (lexer.tokens (unifyBreaks code.toList)).mapError (Failure.named name) := by
  unfold tokenize
  cases htokens : lexer.tokens (unifyBreaks code.toList) with
  | error e => cases e <;> rfl
  | ok ts =>
    obtain ⟨us, u, eof, -, -, hfinish, rfl⟩ := tokens_eq_ok.1 htokens
    show Except.ok (TokenStream.ofTokens (us ++ [eof]) name).tokens = Except.ok (us ++ [eof])
    rw [TokenStream.tokens_ofTokens, TokenStream.closeList_append_eof _ (finish_ok hfinish).2]

/-- A template behind one that ends with a plain end of a print tag fails exactly if it fails alone,
and the tokens are those of both without the end of the first one. Lines are counted on from the
first template. -/
theorem tokenize_append {lexer : Lexer} (hlexer : ofOptions {} comments = .ok lexer)
    {name first : String} {stream : TokenStream} {before : List Token} {closing eof : Token}
    (hfirst : lexer.tokenize ⟨name, first⟩ = .ok stream)
    (hend : ['\x7d', '\x7d'] <:+ first.toList)
    (hall : ¬ ['-', '\x7d', '\x7d'] <:+ first.toList)
    (hline : ¬ ['~', '\x7d', '\x7d'] <:+ first.toList)
    (htokens : stream.tokens = before ++ [closing, eof]) (hclosing : closing.kind = .varEnd)
    (second : String) :
    (lexer.tokenize ⟨name, first ++ second⟩).map TokenStream.tokens =
      ((lexer.tokenize ⟨name, second⟩).map fun stream =>
        before ++ closing ::
          stream.tokens.map (Token.shift ((unifyBreaks first.toList).count '\n'))).mapError
            (LexError.shift ((unifyBreaks first.toList).count '\n')) := by
  obtain ⟨r, hr, rfl⟩ := ofOptions_eq_ok.1 hlexer
  obtain rfl := Option.some.inj (ofOptions?_default.symm.trans hr)
  obtain ⟨hcode, hunify⟩ := printEnd_unifyBreaks hend hall hline
  have hread : Lexer.tokens ⟨defaultRules, comments⟩ (unifyBreaks first.toList) =
      .ok (before ++ [closing, eof]) := by
    have := map_tokens_tokenize ⟨defaultRules, comments⟩ name first
    rw [hfirst] at this
    exact mapError_eq_ok.1 (this.symm.trans (congrArg Except.ok htokens))
  have hboth := tokens_append hcode hread (by rw [hclosing]; decide) (unifyBreaks second.toList)
  have hsecond := map_tokens_tokenize ⟨defaultRules, comments⟩ name second
  rw [map_tokens_tokenize, String.toList_append, hunify, hboth]
  generalize (unifyBreaks first.toList).count '\n' = k
  generalize Lexer.tokens ⟨defaultRules, comments⟩ (unifyBreaks second.toList) = x at hsecond ⊢
  generalize tokenize ⟨defaultRules, comments⟩ ⟨name, second⟩ = y at hsecond ⊢
  cases x with
  | error e =>
    cases y with
    | error e' =>
      obtain rfl := Except.error.inj hsecond
      exact congrArg Except.error (e.named_shift name k)
    | ok stream => simp [Except.map] at hsecond
  | ok ts =>
    cases y with
    | error e' => simp [Except.map] at hsecond
    | ok stream =>
      obtain rfl := Except.ok.inj hsecond
      rfl

/-- A print tag with a line break, behind which a block tag begins. -/
theorem tokenize_append_printTag :
    ∃ lexer stream closing eof, ofOptions {} .keep = .ok lexer ∧
      lexer.tokenize ⟨"page", "\x7b\x7b a\n\x7d\x7d"⟩ = .ok stream ∧
      stream.tokens = [⟨.varStart, "\x7b\x7b", 1⟩, ⟨.name, "a", 1⟩] ++ [closing, eof] ∧
      closing.kind = .varEnd ∧ ∀ second,
        (lexer.tokenize ⟨"page", "\x7b\x7b a\n\x7d\x7d" ++ second⟩).map TokenStream.tokens =
          ((lexer.tokenize ⟨"page", second⟩).map fun stream =>
            [⟨.varStart, "\x7b\x7b", 1⟩, ⟨.name, "a", 1⟩] ++ closing ::
              stream.tokens.map (Token.shift 1)).mapError (LexError.shift 1) := by
  obtain ⟨lexer, hlexer, stream, hstream, closing, eof, htokens, hclosing⟩ :
      ∃ lexer, ofOptions {} .keep = .ok lexer ∧ ∃ stream,
        lexer.tokenize ⟨"page", "\x7b\x7b a\n\x7d\x7d"⟩ = .ok stream ∧ ∃ closing eof,
          stream.tokens =
            [⟨.varStart, "\x7b\x7b", 1⟩, ⟨.name, "a", 1⟩] ++ [closing, eof] ∧
          closing.kind = .varEnd :=
    ⟨_, rfl, _, rfl, _, _, rfl, rfl⟩
  exact ⟨lexer, stream, closing, eof, hlexer, hstream, htokens, hclosing, fun second =>
    tokenize_append hlexer hstream (by decide) (by decide) (by decide) htokens hclosing second⟩

end TemplateEngine.Lexer
