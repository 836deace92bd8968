import TemplateEngine.Proofs.Lexer.Comments

/-!
The states that a lexer passes through. Main statements: a successful step takes one of four forms
and leads on to a state that a lexer can stand in; a lexer gives tokens exactly if steps lead from
the start of the text to its end with everything closed there, and these are the tokens of the
steps.
-/

namespace TemplateEngine.Lexer

variable {r : Rules} {comments : Comments} {s t u : State} {tokens more : List Token}

/-- The tokens of a piece and the state behind it, however the piece ends. -/
def DataPiece.piece : DataPiece → Piece
  | lexed piece => piece
  | openComment piece => piece

theorem DataPiece.piece_after (tokens : List Token) (d : DataPiece) :
    (d.after tokens).piece = d.piece.after tokens := by
  cases d <;> rfl

/-- The tag starts that a state has not passed. -/
def State.tagsAhead (s : State) : List TagStart :=
  s.tags.dropWhile (·.offset < s.offset)

theorem offset_le_advance (n : Nat) (s : State) : s.offset ≤ (s.advance n).offset :=
  Nat.le_add_right _ _

/-- A piece of text moves on and goes into parts of the template, and nothing else changes. -/
def MovesOn (s t : State) : Prop :=
  ∃ n, t = { s.advance n with nesting := t.nesting, tags := t.tags, tagLine := t.tagLine }

theorem MovesOn.ofAdvance {n : Nat} {later : List TagStart}
    (h : MovesOn { s.advance n with tags := later } t) : MovesOn s t := by
  obtain ⟨m, hm⟩ := h
  refine ⟨n + m, ?_⟩
  rw [← State.advance_advance]
  exact hm

theorem MovesOn.offset_le (h : MovesOn s t) : s.offset ≤ t.offset := by
  obtain ⟨n, hn⟩ := h
  rw [hn]
  exact offset_le_advance n s

theorem value_ne_empty_of_mem_textTokens {text : List Char} :
    ∀ x ∈ s.textTokens text, x.kind = .text → x.value ≠ "" := by
  intro x hx _
  unfold State.textTokens at hx
  split at hx
  · simp at hx
  · next htext =>
    obtain rfl := List.mem_singleton.1 hx
    intro hvalue
    have := congrArg String.toList hvalue
    simp only [State.token, String.toList_ofList] at this
    exact htext (by rw [this]; rfl)

theorem enterTag_movesOn {nesting : Nesting} {kind : TokenKind} {opening : List Char} :
    MovesOn s (enterTag nesting kind opening s).2 :=
  ⟨0, by simp [enterTag, State.enter, State.advance]⟩

theorem value_ne_empty_of_mem_enterTag {nesting : Nesting} {kind : TokenKind}
    {opening : List Char} (hkind : kind ≠ .text) :
    ∀ x ∈ (enterTag nesting kind opening s).1, x.kind = .text → x.value ≠ "" := by
  intro x hx hx'
  obtain rfl := List.mem_singleton.1 hx
  exact absurd hx' hkind

/-- What stands behind an opening delimiter moves on and has no empty texts. -/
theorem tagStep_movesOn {search : EndSearch} {kind : TagKind} {d : DataPiece}
    (h : tagStep r search kind s = .ok d) :
    MovesOn s d.piece.2 ∧ d.piece.2.tags = s.tags ∧
      ∀ x ∈ d.piece.1, x.kind = .text → x.value ≠ "" := by
  unfold tagStep at h
  split at h
  · split at h
    · obtain rfl := Except.ok.inj h
      exact ⟨⟨0, by simp [DataPiece.piece, State.advance]⟩, rfl, by simp [DataPiece.piece]⟩
    · obtain rfl := Except.ok.inj h
      exact ⟨⟨_, rfl⟩, rfl, by simp [DataPiece.piece]⟩
  · obtain rfl := Except.ok.inj h
    exact ⟨enterTag_movesOn, rfl, value_ne_empty_of_mem_enterTag (by simp)⟩
  · split at h
    · next n _ =>
      obtain ⟨⟨tokens, t⟩, hpiece, rfl⟩ := map_eq_ok.1 h
      unfold verbatimStep at hpiece
      split at hpiece
      · simp at hpiece
      · next body trim m _ =>
        obtain ⟨rfl, rfl⟩ := Prod.mk.inj (Except.ok.inj hpiece)
        refine ⟨⟨n + (body.length + m), ?_⟩, rfl, value_ne_empty_of_mem_textTokens⟩
        simp only [DataPiece.piece, State.advance_advance]
    · obtain rfl := Except.ok.inj h
      exact ⟨enterTag_movesOn, rfl, value_ne_empty_of_mem_enterTag (by simp)⟩

/-- What a piece of text does besides going into parts of the template: it moves on, behind a tag
start if it takes one, and has no empty texts. -/
structure InText (s : State) (piece : Piece) : Prop where
  movesOn : MovesOn s piece.2
  tags : piece.2.tags = s.tags ∨ ∃ start, s.tagsAhead = start :: piece.2.tags ∧
    (s.advance (start.offset - s.offset + start.length)).offset ≤ piece.2.offset
  texts : ∀ x ∈ piece.1, x.kind = .text → x.value ≠ ""

theorem dataStep_inText {search : EndSearch} {d : DataPiece}
    (h : dataStep r search s = .ok d) : InText s d.piece := by
  unfold dataStep at h
  split at h
  · obtain rfl := Except.ok.inj h
    exact ⟨⟨_, rfl⟩, .inl rfl, value_ne_empty_of_mem_textTokens⟩
  · next start later htags =>
    obtain ⟨piece, hpiece, rfl⟩ := map_eq_ok.1 h
    obtain ⟨hmoves, hlater, htexts⟩ := tagStep_movesOn hpiece
    have hoffset := hmoves.offset_le
    rw [DataPiece.piece_after]
    refine ⟨hmoves.ofAdvance, .inr ⟨start, ?_, hoffset⟩, fun x hx => ?_⟩
    · rw [State.tagsAhead, htags]
      exact congrArg (start :: ·) hlater.symm
    · rcases List.mem_append.1 hx with hx | hx
      · exact value_ne_empty_of_mem_textTokens x hx
      · exact htexts x hx

inductive Placed (comments : Comments) : List Nesting → Prop
  | text : Placed comments []
  | tag {nesting : List Nesting} (h : InTag nesting) : Placed comments nesting
  | comment (h : comments = .keep) : Placed comments [.comment]

structure Sound (comments : Comments) (s : State) : Prop where
  fits : TagsFit s
  placed : Placed comments s.nesting

theorem sound_start (r : Rules) (comments : Comments) (code : List Char) :
    Sound comments (.start r code) :=
  ⟨tagsFit_start r code, .text⟩

/-- The forms of a successful step. Inside a tag it is a turn; in text it comes to text, to a tag
or, if comments are kept, to one of them; from there it comes to its end. -/
inductive Stepped (r : Rules) (comments : Comments) (s : State) : List Token → State → Prop
  | turned {tokens : List Token} {t : State} (hplace : InTag s.nesting) (h : Turned r s tokens t) :
      Stepped r comments s tokens t
  | text {tokens : List Token} {t : State} (hplace : s.nesting = [])
      (hpiece : TextPiece tokens t.nesting) (h : InText s (tokens, t)) :
      Stepped r comments s tokens t
  | openComment {tokens : List Token} {t : State} (hkeep : comments = .keep)
      (hplace : s.nesting = []) (hnest : t.nesting = [.comment])
      (htexts : ∀ x ∈ tokens, x.kind = .text) (h : InText s (tokens, t)) :
      Stepped r comments s tokens t
  | comment {line : Nat} {body : String} {n : Nat} (hkeep : comments = .keep)
      (hplace : s.nesting = [.comment]) :
      Stepped r comments s (commentTokens r.commentPair line body) (s.advance n).leave

theorem rest_ne_nil_of_isDone (hplace : s.nesting = [] ∨ InTag s.nesting)
    (hdone : isDone comments s = false) : s.rest ≠ [] := by
  intro hs
  simp [isDone_of_rest_eq_nil hs hplace] at hdone

theorem dropStep_of_text (hnest : s.nesting = []) (h : dropStep r s = .ok (tokens, t)) :
    dataStep r (realSearch r) s = .ok (.lexed (tokens, t)) := by
  unfold dropStep at h
  simp only [hnest] at h
  split at h
  · simp at h
  · simp at h
  · next hdata => rw [hdata, Except.ok.inj h]

theorem keepStep_of_text (hnest : s.nesting = []) (h : keepStep r s = .ok (tokens, t)) :
    dataStep r armedSearch s = .ok (.lexed (tokens, t)) ∨
      ∃ u, dataStep r armedSearch s = .ok (.openComment (tokens, u)) ∧ t = u.enter .comment := by
  unfold keepStep at h
  simp only [hnest] at h
  split at h
  · simp at h
  · next hdata =>
    obtain ⟨rfl, rfl⟩ := Prod.mk.inj (Except.ok.inj h)
    exact .inr ⟨_, hdata, rfl⟩
  · next hdata => exact .inl (by rw [hdata, Except.ok.inj h])

theorem commentStep_ok (h : commentStep r s = .ok (tokens, t)) :
    ∃ body n, realSearch r s.rest = some (body, n) ∧
      tokens = commentTokens r.commentPair s.line (String.ofList body) ∧
        t = (s.advance (body.length + n)).leave := by
  unfold commentStep at h
  split at h
  · simp at h
  · next body n hsearch =>
    obtain ⟨rfl, rfl⟩ := Prod.mk.inj (Except.ok.inj h)
    exact ⟨body, n, hsearch, rfl, rfl⟩

/-- A successful step from a state that a lexer can stand in has one of the forms, and moves on. -/
theorem Sound.stepped (h : Sound comments s) (hdone : isDone comments s = false)
    (hstep : step r comments s = .ok (tokens, t)) :
    Stepped r comments s tokens t ∧ Passed s t := by
  obtain ⟨hfit, hplaced⟩ := h
  generalize hnest : s.nesting = nesting at hplaced
  cases hplaced with
  | text =>
    have hs := rest_ne_nil_of_isDone (.inl hnest) hdone
    have hlexed : ∀ search, dataStep r search s = .ok (.lexed (tokens, t)) →
        Stepped r comments s tokens t ∧ Passed s t := by
      intro search hdata
      obtain ⟨hpiece, hpassed⟩ := dataStep_lexed hnest hs hfit hdata
      exact ⟨.text hnest hpiece (dataStep_inText hdata), hpassed⟩
    cases comments with
    | drop => exact hlexed _ (dropStep_of_text hnest hstep)
    | keep =>
      rcases keepStep_of_text hnest hstep with hdata | ⟨u, hdata, rfl⟩
      · exact hlexed _ hdata
      · obtain ⟨htexts, hout, hpassed⟩ := dataStep_openComment hnest hs hfit hdata
        have htext := dataStep_inText hdata
        refine ⟨.openComment rfl hnest (by simp [State.enter, hout]) htexts
          ⟨?_, htext.tags, htext.texts⟩, ?_⟩
        · obtain ⟨n, hn⟩ := htext.movesOn
          exact ⟨n, congrArg (State.enter .comment) hn⟩
        · exact ⟨hpassed.shorter, hpassed.tags⟩
  | tag htag =>
    rw [← hnest] at htag
    have hs := rest_ne_nil_of_isDone (.inr htag) hdone
    rw [step_of_inTag htag] at hstep
    exact ⟨.turned htag (partStep_turned hs hstep), (partStep_moved hs hstep).passed⟩
  | comment hkeep =>
    subst hkeep
    have hcomment : commentStep r s = .ok (tokens, t) := by
      simp only [step, keepStep, hnest] at hstep
      exact mapError_eq_ok.1 hstep
    obtain ⟨body, n, hsearch, rfl, rfl⟩ := commentStep_ok hcomment
    obtain ⟨hs, hn⟩ := realSearch_pos hsearch
    exact ⟨.comment rfl hnest, length_rest_advance_lt hs (by omega), fun _ hstart => hstart⟩

theorem Stepped.placed (h : Stepped r comments s tokens t) : Placed comments t.nesting := by
  cases h with
  | turned hplace h =>
    rcases h.turn.move.inTag hplace with hnest | hnest
    · rw [hnest]
      exact .text
    · exact .tag hnest
  | text _ hpiece =>
    rcases hpiece.placed with hnest | hnest
    · rw [hnest]
      exact .text
    · exact .tag hnest
  | openComment hkeep _ hnest =>
    rw [hnest]
    exact .comment hkeep
  | comment _ hplace =>
    rw [State.leave, State.nesting_advance, hplace]
    exact .text

theorem Sound.step (h : Sound comments s) (hdone : isDone comments s = false)
    (hstep : step r comments s = .ok (tokens, t)) : Sound comments t :=
  have hstepped := h.stepped hdone hstep
  ⟨hstepped.2.fits h.fits, hstepped.1.placed⟩

inductive Reaches (r : Rules) (comments : Comments) : State → List Token → State → Prop
  | refl (s : State) : Reaches r comments s [] s
  | step {s t u : State} {tokens more : List Token} (hdone : isDone comments s = false)
      (hstep : step r comments s = .ok (tokens, t)) (hmore : Reaches r comments t more u) :
      Reaches r comments s (tokens ++ more) u

namespace Reaches

theorem single (hdone : isDone comments s = false)
    (hstep : Lexer.step r comments s = .ok (tokens, t)) : Reaches r comments s tokens t := by
  have := step hdone hstep (refl t)
  rwa [List.append_nil] at this

theorem trans (h : Reaches r comments s tokens t) (h' : Reaches r comments t more u) :
    Reaches r comments s (tokens ++ more) u := by
  induction h with
  | refl => exact h'
  | step hdone hstep _ ih =>
    rw [List.append_assoc]
    exact .step hdone hstep (ih h')

theorem sound (h : Reaches r comments s tokens t) (hs : Sound comments s) : Sound comments t := by
  induction h with
  | refl => exact hs
  | step hdone hstep _ ih => exact ih (hs.step hdone hstep)

/-- A property of states, with the tokens up to them, that every step keeps. -/
theorem induct {P : List Token → State → Prop} (h : Reaches r comments s tokens t)
    (hs : Sound comments s) (before : List Token) (hP : P before s)
    (hstep : ∀ before s tokens t, Sound comments s → P before s →
      Stepped r comments s tokens t → P (before ++ tokens) t) : P (before ++ tokens) t := by
  induction h generalizing before with
  | refl => rwa [List.append_nil]
  | step hdone hfirst _ ih =>
    rw [← List.append_assoc]
    exact ih (hs.step hdone hfirst) _ (hstep _ _ _ _ hs hP (hs.stepped hdone hfirst).1)

/-- A run from the first state goes on from the second one, if it has steps enough for the text. -/
theorem run_eq (h : Reaches r comments s tokens t) (hs : Sound comments s) {k : Nat}
    (hk : s.rest.length < k) :
    ∃ j, t.rest.length < j ∧
      run r comments k s = (run r comments j t).map (Piece.after tokens) := by
  induction h generalizing k with
  | refl s => exact ⟨k, hk, by cases run r comments k s <;> simp [Except.map, Piece.after]⟩
  | step hdone hstep hmore ih =>
    obtain ⟨k, rfl⟩ : ∃ j, k = j + 1 := ⟨k - 1, by omega⟩
    have hshorter := (hs.stepped hdone hstep).2.shorter
    obtain ⟨j, hj, hrun⟩ := ih (hs.step hdone hstep) (k := k) (by omega)
    exact ⟨j, hj, by rw [run_succ hdone hstep, hrun, map_after_after]⟩

end Reaches

/-- A run that succeeds, with steps enough for the text, leads to a state where the lexer is
done. -/
theorem reaches_of_run {k : Nat} (hs : Sound comments s) (hk : s.rest.length < k)
    (h : run r comments k s = .ok (tokens, t)) :
    Reaches r comments s tokens t ∧ isDone comments t = true := by
  induction k generalizing s tokens with
  | zero => omega
  | succ k ih =>
    cases hdone : isDone comments s with
    | true =>
      rw [run_done hdone] at h
      obtain ⟨rfl, rfl⟩ := Prod.mk.inj (Except.ok.inj h)
      exact ⟨.refl s, hdone⟩
    | false =>
      cases hstep : step r comments s with
      | error e => rw [run_succ_error hdone hstep] at h; simp at h
      | ok piece =>
        obtain ⟨first, u⟩ := piece
        have hshorter := (hs.stepped hdone hstep).2.shorter
        rw [run_succ hdone hstep] at h
        obtain ⟨⟨more, v⟩, hmore, he⟩ := map_eq_ok.1 h
        obtain ⟨rfl, rfl⟩ := Prod.mk.inj he
        obtain ⟨hreaches, hend⟩ := ih (hs.step hdone hstep) (by omega) hmore
        exact ⟨.step hdone hstep hreaches, hend⟩

/-- A run that fails, with steps enough for the text, leads to a state where the step fails. -/
theorem reaches_of_run_error {k : Nat} {e : Failure} (hs : Sound comments s)
    (hk : s.rest.length < k) (h : run r comments k s = .error e) :
    ∃ tokens t, Reaches r comments s tokens t ∧ isDone comments t = false ∧
      step r comments t = .error e := by
  induction k generalizing s with
  | zero => omega
  | succ k ih =>
    cases hdone : isDone comments s with
    | true => simp [run_done hdone] at h
    | false =>
      cases hstep : step r comments s with
      | error e' =>
        rw [run_succ_error hdone hstep] at h
        obtain rfl := Except.error.inj h
        exact ⟨[], s, .refl s, hdone, hstep⟩
      | ok piece =>
        obtain ⟨first, u⟩ := piece
        have hshorter := (hs.stepped hdone hstep).2.shorter
        have hmore : run r comments k u = .error e := by
          rw [run_succ hdone hstep] at h
          cases hrun : run r comments k u with
          | error e' =>
            rw [hrun] at h
            exact h
          | ok piece => simp [hrun, Except.map] at h
        obtain ⟨more, t, hreaches, hend⟩ := ih (hs.step hdone hstep) (by omega) hmore
        exact ⟨first ++ more, t, .step hdone hstep hreaches, hend⟩

/-- A lexer gives tokens exactly if it comes to the end of the text with everything closed. -/
theorem tokens_eq_ok {lexer : Lexer} {code : List Char} {tokens : List Token} :
    lexer.tokens code = .ok tokens ↔
      ∃ ts t eof, Reaches lexer.rules lexer.comments (.start lexer.rules code) ts t ∧
        isDone lexer.comments t = true ∧ finish t = .ok eof ∧ tokens = ts ++ [eof] := by
  have hstart := sound_start lexer.rules lexer.comments code
  have hlength : (State.start lexer.rules code).rest.length < code.length + 1 := by
    simp [State.start]
  rw [tokens_eq_bind]
  constructor
  · intro h
    cases hrun : run lexer.rules lexer.comments (code.length + 1) (.start lexer.rules code) with
    | error e => rw [hrun] at h; cases h
    | ok piece =>
      obtain ⟨ts, t⟩ := piece
      obtain ⟨hreaches, hdone⟩ := reaches_of_run hstart hlength hrun
      rw [hrun] at h
      obtain ⟨eof, heof, rfl⟩ := map_eq_ok.1 h
      exact ⟨ts, t, eof, hreaches, hdone, mapError_eq_ok.1 heof, rfl⟩
  · rintro ⟨ts, t, eof, hreaches, hdone, heof, rfl⟩
    obtain ⟨j, -, hrun⟩ := hreaches.run_eq hstart hlength
    rw [hrun, run_done hdone]
    simp [Except.map, Piece.after, heof]

/-- A lexer fails exactly if a step does, or if something is still open at the end of the text. -/
theorem tokens_eq_error {lexer : Lexer} {code : List Char} {e : Failure} :
    lexer.tokens code = .error e ↔
      ∃ ts t, Reaches lexer.rules lexer.comments (.start lexer.rules code) ts t ∧
        (isDone lexer.comments t = false ∧ step lexer.rules lexer.comments t = .error e ∨
          isDone lexer.comments t = true ∧ (finish t).mapError .rejected = .error e) := by
  have hstart := sound_start lexer.rules lexer.comments code
  have hlength : (State.start lexer.rules code).rest.length < code.length + 1 := by
    simp [State.start]
  rw [tokens_eq_bind]
  constructor
  · intro h
    cases hrun : run lexer.rules lexer.comments (code.length + 1) (.start lexer.rules code) with
    | error e' =>
      rw [hrun] at h
      obtain rfl := Except.error.inj h
      obtain ⟨ts, t, hreaches, hend⟩ := reaches_of_run_error hstart hlength hrun
      exact ⟨ts, t, hreaches, .inl hend⟩
    | ok piece =>
      obtain ⟨ts, t⟩ := piece
      obtain ⟨hreaches, hdone⟩ := reaches_of_run hstart hlength hrun
      rw [hrun, ok_bind] at h
      refine ⟨ts, t, hreaches, .inr ⟨hdone, ?_⟩⟩
      cases hfinish : (finish t).mapError Failure.rejected with
      | error e' => simpa [hfinish, Except.map] using h
      | ok eof => simp [hfinish, Except.map] at h
  · rintro ⟨ts, t, hreaches, ⟨hdone, hstep⟩ | ⟨hdone, hfinish⟩⟩
    · obtain ⟨j, hj, hrun⟩ := hreaches.run_eq hstart hlength
      obtain ⟨j, rfl⟩ : ∃ i, j = i + 1 := ⟨j - 1, by omega⟩
      rw [hrun, run_succ_error hdone hstep]
      rfl
    · obtain ⟨j, -, hrun⟩ := hreaches.run_eq hstart hlength
      rw [hrun, run_done hdone]
      show ((finish t).mapError Failure.rejected).map _ = _
      rw [hfinish]
      rfl

end TemplateEngine.Lexer
