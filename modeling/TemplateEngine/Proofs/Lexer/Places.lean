import TemplateEngine.Proofs.Lexer.TagStarts

/-!
Two lexers that read the same text at different places of their templates. Main statement: under the
default rules, when the lexers have read tokens of the same kinds and values and go on by the same
text, with the same parts and brackets open, they read the same template up to lines.
-/

namespace TemplateEngine.Lexer

variable {comments : Comments} {c : Char} {n : Nat}

structure Core where
  rest : List Char
  previous : Option Char
  nesting : List Nesting
  openers : List (List Char)

def State.core (s : State) : Core :=
  ⟨s.rest, s.previous, s.nesting, s.brackets.map Bracket.opener⟩

def unlineFault (fault : Located) : Located :=
  (fault.1, 0)

def Failure.unlined : Failure → Failure
  | rejected fault => rejected (unlineFault fault)
  | invalidMode mode => invalidMode mode

inductive Alike {ε : Type} (unline : ε → ε) : Except ε Piece → Except ε Piece → Prop
  | fault {e e' : ε} (h : unline e = unline e') : Alike unline (.error e) (.error e')
  | piece {tokens more : List Token} {s t : State}
      (htokens : tokens.map Token.spelling = more.map Token.spelling) (hcore : s.core = t.core) :
      Alike unline (.ok (tokens, s)) (.ok (more, t))

section

variable {r : Rules} {s t u v : State} (h : s.core = t.core)

include h

theorem rest_eq_of_core : s.rest = t.rest :=
  congrArg Core.rest h

theorem previous_eq_of_core : s.previous = t.previous :=
  congrArg Core.previous h

theorem nesting_eq_of_core : s.nesting = t.nesting :=
  congrArg Core.nesting h

theorem openers_eq_of_core :
    s.brackets.map Bracket.opener = t.brackets.map Bracket.opener :=
  congrArg Core.openers h

theorem core_advance (n : Nat) : (s.advance n).core = (t.advance n).core := by
  simp only [State.core, State.advance, rest_eq_of_core h, previous_eq_of_core h,
    nesting_eq_of_core h, openers_eq_of_core h]

theorem core_enter (part : Nesting) : (s.enter part).core = (t.enter part).core := by
  simp only [State.core, State.enter, rest_eq_of_core h, previous_eq_of_core h,
    nesting_eq_of_core h, openers_eq_of_core h]

theorem core_leave : s.leave.core = t.leave.core := by
  simp only [State.core, State.leave, rest_eq_of_core h, previous_eq_of_core h,
    nesting_eq_of_core h, openers_eq_of_core h]

theorem core_openBracket (opener : List Char) :
    (s.openBracket opener).core = (t.openBracket opener).core := by
  simp only [State.core, State.openBracket, List.map_cons, rest_eq_of_core h,
    previous_eq_of_core h, nesting_eq_of_core h, openers_eq_of_core h]

theorem core_setBrackets {brackets brackets' : List Bracket}
    (hopeners : brackets.map Bracket.opener = brackets'.map Bracket.opener) :
    { s with brackets := brackets }.core = { t with brackets := brackets' }.core := by
  simp only [State.core, rest_eq_of_core h, previous_eq_of_core h, nesting_eq_of_core h, hopeners]

omit h in
/-- Behind characters that were read the one in front of them does not matter. -/
theorem core_advance_pos (hrest : s.rest = t.rest) (hne : s.rest ≠ [])
    (hnesting : s.nesting = t.nesting)
    (hopeners : s.brackets.map Bracket.opener = t.brackets.map Bracket.opener) (hn : n ≠ 0) :
    (s.advance n).core = (t.advance n).core := by
  have hprevious : (s.advance n).previous = (t.advance n).previous := by
    rw [State.previous_advance hn hne, State.previous_advance hn (by rwa [← hrest]), hrest]
  simp only [State.core, hprevious, State.rest_advance, State.nesting_advance,
    State.brackets_advance, hrest, hnesting, hopeners]

/-- The innermost brackets have the same opener, or there is none. -/
theorem brackets_of_core :
    s.brackets = [] ∧ t.brackets = [] ∨ ∃ b b' outer outer', s.brackets = b :: outer ∧
      t.brackets = b' :: outer' ∧ b.opener = b'.opener ∧
        outer.map Bracket.opener = outer'.map Bracket.opener := by
  have hopeners := openers_eq_of_core h
  cases hs : s.brackets with
  | nil =>
    rw [hs] at hopeners
    exact .inl ⟨rfl, List.map_eq_nil_iff.1 hopeners.symm⟩
  | cons b outer =>
    rw [hs] at hopeners
    obtain ⟨b', outer', ht, hb, houter⟩ := List.map_eq_cons_iff.1 hopeners.symm
    exact .inr ⟨b, b', outer, outer', rfl, ht, hb.symm, houter.symm⟩

theorem isDone_eq_of_core : isDone comments s = isDone comments t := by
  cases comments <;> simp only [isDone, State.mode, rest_eq_of_core h, nesting_eq_of_core h]

omit h

variable {ε : Type} {unline : ε → ε}

theorem Alike.token (hcore : u.core = v.core) (kind : TokenKind) (value : List Char) :
    Alike unline (.ok ([s.token kind value], u)) (.ok ([t.token kind value], v)) :=
  .piece rfl hcore

theorem Alike.rejected {x y : Except Located Piece} (h : Alike unlineFault x y) :
    Alike Failure.unlined (x.mapError .rejected) (y.mapError .rejected) := by
  cases h with
  | fault h => exact .fault (congrArg Failure.rejected h)
  | piece htokens hcore => exact .piece htokens hcore

theorem textTokens_spelling (text : List Char) :
    (s.textTokens text).map Token.spelling = (t.textTokens text).map Token.spelling := by
  unfold State.textTokens
  split <;> rfl

include h

theorem punctuationStep_alike : Alike unlineFault (punctuationStep c s) (punctuationStep c t) := by
  unfold punctuationStep
  simp only
  cases bracketOf? c with
  | some opener =>
    rcases brackets_of_core h with ⟨hs, ht⟩ | ⟨b, b', outer, outer', hs, ht, hb, houter⟩
    · simp only [hs, ht]
      exact .fault rfl
    · simp only [hs, ht, hb]
      split
      · exact .token (core_advance (core_setBrackets h houter) 1) _ _
      · exact .fault rfl
  | none =>
    simp only
    split
    · exact .token (core_advance (core_openBracket h [c]) 1) _ _
    · exact .token (core_advance h 1) _ _

theorem wordStep_alike : Alike unlineFault (wordStep r c s) (wordStep r c t) := by
  unfold wordStep
  rw [previous_eq_of_core h, rest_eq_of_core h]
  split
  · exact .token (core_advance h _) _ _
  · simp only
    split
    · exact .token (core_advance h _) _ _
    · split
      · exact .token (core_advance h _) _ _
      · split
        · exact punctuationStep_alike h
        · split
          · exact .token (core_advance h _) _ _
          · split
            · exact .piece rfl (core_advance (core_enter (core_openBracket h ['"']) .string) 1)
            · exact .fault rfl

theorem unclosedTag_of_core : unlineFault (unclosedTag s) = unlineFault (unclosedTag t) := by
  simp only [unlineFault, unclosedTag, nesting_eq_of_core h]

theorem expressionStep_alike : Alike unlineFault (expressionStep r s) (expressionStep r t) := by
  have hmore := core_advance h (t.rest.takeWhile Text.isBlank).length
  unfold expressionStep
  simp only [rest_eq_of_core h]
  rw [rest_eq_of_core hmore]
  split
  · split
    · exact .piece rfl hmore
    · exact .fault (unclosedTag_of_core hmore)
  · exact wordStep_alike hmore

theorem closeOrExpression_alike (close : Pattern) (kind : TokenKind) (closing : List Char) :
    Alike unlineFault (closeOrExpression r close kind closing s)
      (closeOrExpression r close kind closing t) := by
  have hempty : s.brackets.isEmpty = t.brackets.isEmpty := by
    rw [← List.isEmpty_map (f := Bracket.opener), openers_eq_of_core h, List.isEmpty_map]
  unfold closeOrExpression
  rw [hempty, rest_eq_of_core h]
  split
  · exact .token (core_leave (core_advance h _)) _ _
  · exact expressionStep_alike h

theorem interpolationStep_alike :
    Alike unlineFault (interpolationStep r s) (interpolationStep r t) := by
  have hend : r.interpolationEnd.length? s.rest = r.interpolationEnd.length? t.rest := by
    rw [rest_eq_of_core h]
  unfold interpolationStep
  rcases brackets_of_core h with ⟨hs, ht⟩ | ⟨b, b', outer, outer', hs, ht, hb, houter⟩
  · simp only [hs, ht]
    exact expressionStep_alike h
  · simp only [hs, ht, hb, hend]
    split
    · exact .token (core_leave (core_advance (core_setBrackets h houter) _)) _ _
    · exact expressionStep_alike h

theorem stringStep_alike : Alike unlineFault (stringStep r s) (stringStep r t) := by
  have hstart : r.interpolationStart.length? s.rest = r.interpolationStart.length? t.rest := by
    rw [rest_eq_of_core h]
  cases hlength : r.interpolationStart.length? t.rest with
  | some n =>
    unfold stringStep
    rw [hstart, hlength]
    exact .token (core_enter (core_advance (core_openBracket h _) _) _) _ _
  | none =>
    rw [hlength] at hstart
    have hplain : plainLength r.interpolation.opening s.rest =
        plainLength r.interpolation.opening t.rest := by
      rw [rest_eq_of_core h]
    by_cases hzero : plainLength r.interpolation.opening t.rest = 0
    · rw [hzero] at hplain
      have hsame := rest_eq_of_core h
      match hrest : t.rest with
      | [] =>
        unfold stringStep
        rw [hstart, hlength]
        simp only [hsame, hrest, plainLength, ne_eq, not_true_eq_false, if_false]
        exact .fault rfl
      | c :: cs =>
        rw [hrest] at hsame
        by_cases hc : c = '"'
        · subst hc
          rw [stringStep_quote hstart hsame, stringStep_quote hlength hrest]
          rcases brackets_of_core h with ⟨hs, ht⟩ | ⟨b, b', outer, outer', hs, ht, hb, houter⟩
          · simp only [hs, ht]
            exact .piece rfl (core_advance (core_leave h) 1)
          · simp only [hs, ht, hb]
            split
            · exact .piece rfl (core_advance (core_leave (core_setBrackets h houter)) 1)
            · exact .fault rfl
        · rw [stringStep_other hstart hsame hc hplain, stringStep_other hlength hrest hc hzero]
          exact .fault rfl
    · rw [stringStep_plain hstart (by rwa [hplain]), stringStep_plain hlength hzero, hplain,
        rest_eq_of_core h]
      exact .token (core_advance h _) _ _

theorem partStep_alike : Alike Failure.unlined (partStep r s) (partStep r t) := by
  unfold partStep
  rw [nesting_eq_of_core h]
  split
  · exact .fault rfl
  · exact (closeOrExpression_alike h _ _ _).rejected
  · exact (closeOrExpression_alike h _ _ _).rejected
  · exact (stringStep_alike h).rejected
  · exact (interpolationStep_alike h).rejected
  · exact .fault rfl

theorem commentStep_alike : Alike unlineFault (commentStep r s) (commentStep r t) := by
  unfold commentStep
  rw [rest_eq_of_core h]
  split
  · exact .fault rfl
  · exact .piece rfl (core_leave (core_advance h _))

theorem verbatimStep_alike : Alike unlineFault (verbatimStep r s) (verbatimStep r t) := by
  unfold verbatimStep
  rw [rest_eq_of_core h]
  split
  · exact .fault rfl
  · exact .piece (textTokens_spelling _) (core_advance h _)

end

inductive DataAlike : Except Located DataPiece → Except Located DataPiece → Prop
  | lexed {x y : Except Located Piece} (h : Alike unlineFault x y) :
      DataAlike (x.map .lexed) (y.map .lexed)
  | openComment {tokens more : List Token} {s t : State}
      (htokens : tokens.map Token.spelling = more.map Token.spelling) (hcore : s.core = t.core) :
      DataAlike (.ok (.openComment (tokens, s))) (.ok (.openComment (more, t)))

section

variable {s t : State} (h : s.core = t.core)
include h

theorem enterTag_alike (nesting : Nesting) (kind : TokenKind) (opening : List Char) :
    Alike unlineFault (.ok (enterTag nesting kind opening s))
      (.ok (enterTag nesting kind opening t)) :=
  .piece rfl (core_enter h nesting)

theorem tagStep_alike (r : Rules) (kind : TagKind) :
    DataAlike (tagStep r armedSearch kind s) (tagStep r armedSearch kind t) := by
  cases kind with
  | comment =>
    simp only [tagStep, armedSearch_eq_none]
    exact .openComment rfl h
  | print => exact .lexed (enterTag_alike h .print .varStart _)
  | block =>
    simp only [tagStep]
    rw [rest_eq_of_core h]
    split
    · exact .lexed (verbatimStep_alike (core_advance h _))
    · exact .lexed (enterTag_alike h .block .blockStart _)

omit h in
theorem DataAlike.after {x y : Except Located DataPiece} (h : DataAlike x y)
    {tokens more : List Token} (htokens : tokens.map Token.spelling = more.map Token.spelling) :
    DataAlike (x.map (DataPiece.after tokens)) (y.map (DataPiece.after more)) := by
  cases h with
  | openComment hrest hcore =>
    exact .openComment (by rw [List.map_append, List.map_append, htokens, hrest]) hcore
  | lexed h =>
    cases h with
    | @fault e e' h => exact .lexed (x := .error e) (y := .error e') (.fault h)
    | @piece first second u v hrest hcore =>
      refine .lexed (x := .ok (tokens ++ first, u)) (y := .ok (more ++ second, v)) (.piece ?_ hcore)
      rw [List.map_append, List.map_append, htokens, hrest]

theorem dataStep_alike (hs : Scanned s) (ht : Scanned t) :
    DataAlike (dataStep defaultRules armedSearch s) (dataStep defaultRules armedSearch t) := by
  have hstarts := hs.tagsAhead_eq
  have hstarts' := ht.tagsAhead_eq
  unfold State.tagsAhead at hstarts hstarts'
  unfold dataStep
  rw [hstarts, hstarts', rest_eq_of_core h]
  cases defaultRules.tagStarts t.rest with
  | nil =>
    exact .lexed (x := .ok _) (y := .ok _) (.piece (textTokens_spelling _) (core_advance h _))
  | cons start later =>
    simp only [List.map_cons, TagStart.move, Nat.add_sub_cancel_left]
    refine DataAlike.after (tagStep_alike ?_ _ _) (textTokens_spelling _)
    exact core_advance h (start.offset + start.length)

theorem dropStep_alike (hnest : s.nesting = []) (hs : Scanned s) (ht : Scanned t) :
    Alike Failure.unlined (dropStep defaultRules s) (dropStep defaultRules t) := by
  have hdata := dataStep_alike h hs ht
  unfold dropStep
  rw [← nesting_eq_of_core h, hnest, dataStep_realSearch, dataStep_realSearch]
  simp only
  generalize dataStep defaultRules armedSearch s = x at hdata ⊢
  generalize dataStep defaultRules armedSearch t = y at hdata ⊢
  cases hdata with
  | lexed h =>
    cases h with
    | fault h => exact .fault (congrArg Failure.rejected h)
    | piece htokens hcore => exact .piece htokens hcore
  | @openComment tokens more u v htokens hcore =>
    simp only [Except.map, closeComment, rest_eq_of_core hcore]
    cases realSearch defaultRules v.rest with
    | none => exact .fault rfl
    | some found => exact .piece htokens (core_advance hcore _)

theorem keepStep_alike (hnest : s.nesting = []) (hs : Scanned s) (ht : Scanned t) :
    Alike Failure.unlined (keepStep defaultRules s) (keepStep defaultRules t) := by
  have hdata := dataStep_alike h hs ht
  unfold keepStep
  rw [← nesting_eq_of_core h, hnest]
  simp only
  generalize dataStep defaultRules armedSearch s = x at hdata ⊢
  generalize dataStep defaultRules armedSearch t = y at hdata ⊢
  cases hdata with
  | lexed h =>
    cases h with
    | fault h => exact .fault (congrArg Failure.rejected h)
    | piece htokens hcore => exact .piece htokens hcore
  | openComment htokens hcore => exact .piece htokens (core_enter hcore .comment)

/-- A step at another place gives the same tokens and goes on alike, or fails alike. -/
theorem step_alike (hsound : Sound comments s)
    (hscanned : s.nesting = [] → Scanned s ∧ Scanned t) :
    Alike Failure.unlined (step defaultRules comments s) (step defaultRules comments t) := by
  obtain ⟨-, hplaced⟩ := hsound
  generalize hplace : s.nesting = nesting at hplaced
  cases hplaced with
  | text =>
    obtain ⟨hs, ht⟩ := hscanned hplace
    cases comments with
    | drop => exact dropStep_alike h hplace hs ht
    | keep => exact keepStep_alike h hplace hs ht
  | tag htag =>
    rw [← hplace] at htag
    rw [step_of_inTag htag, step_of_inTag (by rwa [← nesting_eq_of_core h])]
    exact partStep_alike h
  | comment hkeep =>
    subst hkeep
    simp only [step, keepStep, ← nesting_eq_of_core h, hplace]
    exact (commentStep_alike h).rejected

end

variable {s t : State} {code code' : List Char} {before before' : List Token}

/-- Runs at different places read the same, if both have steps enough. -/
theorem run_alike (hs : Reaches defaultRules comments (.start defaultRules code) before s)
    (ht : Reaches defaultRules comments (.start defaultRules code') before' t)
    (h : s.core = t.core) {j k : Nat} (hj : s.rest.length < j) (hk : t.rest.length < k) :
    Alike Failure.unlined (run defaultRules comments j s) (run defaultRules comments k t) := by
  -- On the steps of the first run. Both states stay reachable, so that the tag starts they hold are
  -- those of the text ahead of them, which is the same.
  induction j generalizing s t before before' k with
  | zero => omega
  | succ j ih =>
    obtain ⟨k, rfl⟩ : ∃ i, k = i + 1 := ⟨k - 1, by omega⟩
    have hsound := hs.sound (sound_start defaultRules comments code)
    have hsound' := ht.sound (sound_start defaultRules comments code')
    cases hdone : isDone comments s with
    | true =>
      have hdone' : isDone comments t = true := by rw [← isDone_eq_of_core h, hdone]
      rw [run_done hdone, run_done hdone']
      exact .piece rfl h
    | false =>
      have hdone' : isDone comments t = false := by rw [← isDone_eq_of_core h, hdone]
      have hstep := step_alike h hsound fun hnest =>
        ⟨tagsAhead_of_reaches hs hnest,
          tagsAhead_of_reaches ht ((nesting_eq_of_core h).symm.trans hnest)⟩
      generalize hx : step defaultRules comments s = x at hstep
      generalize hy : step defaultRules comments t = y at hstep
      cases hstep with
      | fault hfault =>
        rw [run_succ_error hdone hx, run_succ_error hdone' hy]
        exact .fault hfault
      | @piece tokens more u v htokens hcore =>
        have hshorter := (hsound.stepped hdone hx).2.shorter
        have hshorter' := (hsound'.stepped hdone' hy).2.shorter
        have hmore := ih (hs.trans (.single hdone hx)) (ht.trans (.single hdone' hy)) hcore
          (k := k) (by omega) (by omega)
        rw [run_succ hdone hx, run_succ hdone' hy]
        generalize run defaultRules comments j u = x' at hmore
        generalize run defaultRules comments k v = y' at hmore
        cases hmore with
        | fault hfault => exact .fault hfault
        | piece hrest hend =>
          refine .piece ?_ hend
          rw [List.map_append, List.map_append, htokens, hrest]

/-- What a lexer makes of a template, without lines. -/
def spelled (lexer : Lexer) (code : List Char) : Except Failure (List (TokenKind × String)) :=
  ((lexer.tokens code).map (·.map Token.spelling)).mapError Failure.unlined

theorem finish_of_core (h : s.core = t.core) :
    ((finish s).map Token.spelling).mapError unlineFault =
      ((finish t).map Token.spelling).mapError unlineFault := by
  unfold finish
  rcases brackets_of_core h with ⟨hs, ht⟩ | ⟨b, b', outer, outer', hs, ht, hb, houter⟩
  · rw [hs, ht, nesting_eq_of_core h]
    split
    · exact absurd ‹_› (by simp)
    · exact congrArg Except.error (unclosedTag_of_core h)
    · rfl
  · rw [hs, ht]
    simp only [hb]
    rfl

/-- Lexers that have read the same tokens at different places of their templates, and go on by the
same text, read the same template up to lines. -/
theorem spelled_eq_of_core
    (hs : Reaches defaultRules comments (.start defaultRules code) before s)
    (ht : Reaches defaultRules comments (.start defaultRules code') before' t)
    (hbefore : before.map Token.spelling = before'.map Token.spelling) (h : s.core = t.core) :
    spelled ⟨defaultRules, comments⟩ code = spelled ⟨defaultRules, comments⟩ code' := by
  obtain ⟨j, hj, hrun⟩ := hs.run_eq (sound_start defaultRules comments code)
    (k := code.length + 1) (by simp [State.start])
  obtain ⟨k, hk, hrun'⟩ := ht.run_eq (sound_start defaultRules comments code')
    (k := code'.length + 1) (by simp [State.start])
  have hmore := run_alike hs ht h hj hk
  unfold spelled
  rw [tokens_eq_bind, tokens_eq_bind]
  simp only [hrun, hrun']
  generalize run defaultRules comments j s = x at hmore
  generalize run defaultRules comments k t = y at hmore
  cases hmore with
  | fault hfault => exact congrArg Except.error hfault
  | @piece tokens more u v htokens hcore =>
    have hend := finish_of_core hcore
    simp only [Except.map, Piece.after, ok_bind]
    cases hu : finish u with
    | error e =>
      cases hv : finish v with
      | error e' =>
        rw [hu, hv] at hend
        exact congrArg (Except.error ∘ Failure.rejected) (Except.error.inj hend)
      | ok eof' => simp [hu, hv, Except.map, Except.mapError] at hend
    | ok eof =>
      cases hv : finish v with
      | error e' => simp [hu, hv, Except.map, Except.mapError] at hend
      | ok eof' =>
        have heof : eof.spelling = eof'.spelling := by
          simpa [hu, hv, Except.map, Except.mapError] using hend
        simp [Except.mapError, hbefore, htokens, heof]

end TemplateEngine.Lexer
