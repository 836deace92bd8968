import TemplateEngine.Proofs.Lexer.PrintEnds

/-!
Two lexers that read the same text, one of them some lines further down and with more text behind.
Main statement: a step of the first one is taken by the second one too, a number of lines further
down, if nothing stands behind or if the text ends with a plain end of a print tag. There the first
one may also fail, or go on to a place from which it does not come to that end.
-/

namespace TemplateEngine

def Token.shift (k : Nat) (t : Token) : Token :=
  { t with line := t.line + k }

namespace Lexer

def Bracket.shift (k : Nat) (b : Bracket) : Bracket :=
  { b with line := b.line + k }

def shiftFault (k : Nat) (fault : Located) : Located :=
  (fault.1, fault.2 + k)

def Failure.shift (k : Nat) : Failure → Failure
  | rejected fault => rejected (shiftFault k fault)
  | invalidMode mode => invalidMode mode

end Lexer

def LexError.shift (k : Nat) : LexError → LexError
  | rejected e => rejected { e with line := e.line + k }
  | invalidMode mode => invalidMode mode
  | invalidOptions reason => invalidOptions reason

namespace Lexer

/-- The second state reads what the first one reads, `k` lines further down and with the text
`behind` behind it. What only counts inside tags is alike there. -/
structure Follows (behind : List Char) (k : Nat) (s t : State) : Prop where
  rest : t.rest = s.rest ++ behind
  line : t.line = s.line + k
  nesting : t.nesting = s.nesting
  brackets : t.brackets = s.brackets.map (Bracket.shift k)
  inTag : InTag s.nesting → t.previous = s.previous ∧ t.tagLine = s.tagLine + k

namespace Follows

variable {behind : List Char} {k n : Nat} {s t : State}

theorem mode (h : Follows behind k s t) : t.mode = s.mode := by
  unfold State.mode
  rw [h.nesting]

theorem take (h : Follows behind k s t) (hn : n ≤ s.rest.length) :
    t.rest.take n = s.rest.take n := by
  rw [h.rest, List.take_append_of_le_length hn]

theorem token (h : Follows behind k s t) (kind : TokenKind) (value : List Char) :
    t.token kind value = (s.token kind value).shift k := by
  rw [State.token, State.token, h.line]
  rfl

theorem textTokens (h : Follows behind k s t) (text : List Char) :
    t.textTokens text = (s.textTokens text).map (Token.shift k) := by
  unfold State.textTokens
  rw [h.token]
  split <;> rfl

theorem advance (h : Follows behind k s t) (hn : n ≤ s.rest.length) :
    Follows behind k (s.advance n) (t.advance n) where
  rest := by
    rw [State.rest_advance, State.rest_advance, h.rest, List.drop_append_of_le_length hn]
  line := by
    rw [State.line_advance, State.line_advance, h.line, h.take hn]
    omega
  nesting := h.nesting
  brackets := h.brackets
  inTag hin := by
    obtain ⟨hprevious, hline⟩ := h.inTag hin
    refine ⟨?_, hline⟩
    simp only [State.advance, h.take hn, hprevious]

theorem enter (h : Follows behind k s t) {part : Nesting}
    (hin : InTag (part :: s.nesting) → InTag s.nesting) :
    Follows behind k (s.enter part) (t.enter part) where
  rest := h.rest
  line := h.line
  nesting := congrArg (part :: ·) h.nesting
  brackets := h.brackets
  inTag htag := h.inTag (hin htag)

theorem leave (h : Follows behind k s t) (hin : InTag s.nesting.tail → InTag s.nesting) :
    Follows behind k s.leave t.leave where
  rest := h.rest
  line := h.line
  nesting := congrArg List.tail h.nesting
  brackets := h.brackets
  inTag htag := h.inTag (hin htag)

theorem setTags (h : Follows behind k s t) (tags tags' : List TagStart) :
    Follows behind k { s with tags := tags } { t with tags := tags' } where
  rest := h.rest
  line := h.line
  nesting := h.nesting
  brackets := h.brackets
  inTag := h.inTag

theorem openBracket (h : Follows behind k s t) (opener : List Char) :
    Follows behind k (s.openBracket opener) (t.openBracket opener) where
  rest := h.rest
  line := h.line
  nesting := h.nesting
  brackets := by
    simp only [State.openBracket, h.brackets, List.map_cons, Bracket.shift, h.line]
  inTag := h.inTag

theorem setBrackets (h : Follows behind k s t) (brackets : List Bracket) :
    Follows behind k { s with brackets := brackets }
      { t with brackets := brackets.map (Bracket.shift k) } where
  rest := h.rest
  line := h.line
  nesting := h.nesting
  brackets := rfl
  inTag := h.inTag

end Follows

/-- A piece from which the end of a print tag is not reached: it is text up to the end of the
template, it opens a tag there, or it goes on with a string that is plain up to there. -/
inductive Lost : Piece → Prop
  | text {tokens : List Token} {t : State} (hrest : t.rest = []) (hnest : t.nesting = [])
      (hlast : ∃ x ∈ tokens.getLast?, x.kind = .text) : Lost (tokens, t)
  | block {tokens : List Token} {t : State} (hrest : t.rest = []) (hnest : t.nesting = [.block]) :
      Lost (tokens, t)
  | string {tokens : List Token} {t : State} {outer : List Nesting}
      (hnest : t.nesting = .string :: outer) (hin : InTag outer)
      (hplain : plainLength ['#', '\x7b'] t.rest = t.rest.length) : Lost (tokens, t)

/-- How the second result answers the first one: with the same fault or piece further down. If there
is text behind, it may do anything where the first one fails or is lost. -/
inductive Echo {ε : Type} (shift : ε → ε) (behind : List Char) (k : Nat) :
    Except ε Piece → Except ε Piece → Prop
  | fault (e : ε) : Echo shift behind k (.error e) (.error (shift e))
  | piece {tokens : List Token} {s t : State} (h : Follows behind k s t) :
      Echo shift behind k (.ok (tokens, s)) (.ok (tokens.map (Token.shift k), t))
  | refused (hbehind : behind ≠ []) (e : ε) (y : Except ε Piece) : Echo shift behind k (.error e) y
  | lost (hbehind : behind ≠ []) {piece : Piece} (h : Lost piece) (y : Except ε Piece) :
      Echo shift behind k (.ok piece) y

def Guarded (behind cs : List Char) : Prop :=
  behind = [] ∨ PrintEnd cs

/-- Nothing stands behind a text, or there is a character in it at which words end. -/
def Stopped (behind cs : List Char) : Prop :=
  behind = [] ∨ ∃ stop ∈ stopChars, stop ∈ cs

section

variable {behind cs : List Char} {k n : Nat} {s t u v : State} {c : Char}

/-- What is recognised in front of the end of a print tag is recognised in guarded texts. -/
theorem Guarded.eq {α : Type} {f : List Char → α} (h : Guarded behind cs)
    (hf : PrintEnd cs → f (cs ++ behind) = f cs) : f (cs ++ behind) = f cs := by
  rcases h with rfl | h
  · rw [List.append_nil]
  · exact hf h

theorem Guarded.stopped (h : Guarded behind cs) : Stopped behind cs :=
  h.imp_right fun hend => ⟨'\x7d', by decide, hend.mem⟩

theorem Stopped.eq {α : Type} {f : List Char → α} (h : Stopped behind cs)
    (hf : ∀ stop ∈ stopChars, stop ∈ cs → f (cs ++ behind) = f cs) :
    f (cs ++ behind) = f cs := by
  rcases h with rfl | ⟨stop, hstop, hmem⟩
  · rw [List.append_nil]
  · exact hf stop hstop hmem

theorem Stopped.drop (h : Stopped behind cs)
    (hn : ∀ stop ∈ stopChars, stop ∈ cs → stop ∈ cs.drop n) : Stopped behind (cs.drop n) :=
  h.imp_right fun ⟨stop, hstop, hmem⟩ => ⟨stop, hstop, hn stop hstop hmem⟩

theorem Echo.token {ε : Type} {shift : ε → ε} (h : Follows behind k s t)
    (hbehind : Follows behind k u v) (kind : TokenKind) (value : List Char) :
    Echo shift behind k (.ok ([s.token kind value], u)) (.ok ([t.token kind value], v)) := by
  rw [h.token]
  exact .piece hbehind

theorem Echo.fault_eq {ε : Type} {shift : ε → ε} {e e' : ε} (h : e' = shift e) :
    Echo shift behind k (.error e) (.error e') := by
  rw [h]
  exact .fault e

theorem Echo.rejected {x y : Except Located Piece} (h : Echo (shiftFault k) behind k x y) :
    Echo (Failure.shift k) behind k (x.mapError Failure.rejected)
      (y.mapError Failure.rejected) := by
  cases h with
  | fault e => exact .fault (Failure.rejected e)
  | piece h => exact .piece h
  | refused hbehind e => exact .refused hbehind _ _
  | lost hbehind h => exact .lost hbehind h _

theorem punctuationStep_echo (h : Follows behind k s t) (hs : s.rest ≠ []) :
    Echo (shiftFault k) behind k (punctuationStep c s) (punctuationStep c t) := by
  have hone : 1 ≤ s.rest.length := List.length_pos_iff.2 hs
  unfold punctuationStep
  simp only
  cases bracketOf? c with
  | some opener =>
    cases hbrackets : s.brackets with
    | nil =>
      rw [h.brackets, hbrackets]
      exact .fault_eq (congrArg (Prod.mk _) h.line)
    | cons innermost outer =>
      simp only [h.brackets, hbrackets, List.map_cons, Bracket.shift]
      split
      · exact .token (h.setBrackets outer) ((h.setBrackets outer).advance hone) _ _
      · exact .fault _
  | none =>
    simp only
    split
    · exact .token (h.openBracket _) ((h.openBracket _).advance hone) _ _
    · exact .token h (h.advance hone) _ _

/-- A string that is opened here but not where there is text behind is plain up to the end. -/
theorem openString_echo (h : Follows behind k s t) (hin : InTag s.nesting)
    (hrest : s.rest = c :: cs) (hnone : stringLiteral? s.rest = none) :
    Echo (shiftFault k) behind k
      (if c == '"' then .ok ([], ((s.openBracket ['"']).enter .string).advance 1)
        else .error (.unexpectedCharacter c, s.line))
      (match stringLiteral? t.rest with
        | some body => .ok ([t.token .string (unescape body)], t.advance (body.length + 2))
        | none =>
          if c == '"' then .ok ([], ((t.openBracket ['"']).enter .string).advance 1)
          else .error (.unexpectedCharacter c, t.line)) := by
  cases hliteral : stringLiteral? t.rest with
  | none =>
    simp only
    split
    · have hone : 1 ≤ s.rest.length := by simp [hrest]
      exact .piece (((h.openBracket ['"']).enter fun _ => hin).advance hone)
    · exact .fault_eq (congrArg (Prod.mk _) h.line)
  | some body =>
    have hbehind : behind ≠ [] := by
      rintro rfl
      rw [h.rest, List.append_nil, hnone] at hliteral
      simp at hliteral
    split
    · next hquote =>
      obtain rfl : c = '"' := by simpa using hquote
      rw [hrest] at hnone
      rw [h.rest, hrest] at hliteral
      refine .lost hbehind (.string rfl hin ?_) _
      rcases literalBody?_eq_none hnone with hmore | hplain
      · exact absurd (hliteral.symm.trans hmore) (by simp)
      · show plainLength _ (s.rest.drop 1) = (s.rest.drop 1).length
        rw [hrest]
        exact hplain
    · exact .refused hbehind _ _

theorem wordStep_echo (h : Follows behind k s t) (hin : InTag s.nesting)
    (hguard : Stopped behind s.rest) (hrest : s.rest = c :: cs) :
    Echo (shiftFault k) behind k (wordStep defaultRules c s) (wordStep defaultRules c t) := by
  have hoperator : defaultRules.operator? t.previous t.rest =
      defaultRules.operator? s.previous s.rest := by
    rw [h.rest, (h.inTag hin).1]
    exact hguard.eq fun _ hstop hmem => operator?_append hstop hmem _
  have hname : nameLength t.rest = nameLength s.rest := by
    rw [h.rest]
    exact hguard.eq fun _ hstop hmem => nameLength_append hstop hmem
  have hnumber : numberLength t.rest = numberLength s.rest := by
    rw [h.rest]
    exact hguard.eq fun _ hstop hmem => numberLength_append hstop hmem
  unfold wordStep
  rw [hoperator]
  cases hop : defaultRules.operator? s.previous s.rest with
  | some found => exact .token h (h.advance (operator?_le hop)) _ _
  | none =>
    simp only [hname, hnumber, h.take (nameLength_le s.rest), h.take (numberLength_le s.rest)]
    split
    · exact .token h (h.advance (nameLength_le s.rest)) _ _
    split
    · exact .token h (h.advance (numberLength_le s.rest)) _ _
    split
    · exact punctuationStep_echo h (by simp [hrest])
    cases hliteral : stringLiteral? s.rest with
    | some body =>
      rw [h.rest, stringLiteral?_append hliteral]
      exact .token h (h.advance (stringLiteral?_le hliteral)) _ _
    | none => exact openString_echo h hin hrest hliteral

theorem unclosedTag_shift (h : Follows behind k s t) (hin : InTag s.nesting) :
    unclosedTag t = shiftFault k (unclosedTag s) := by
  unfold unclosedTag shiftFault
  rw [h.nesting, (h.inTag hin).2]

theorem expressionStep_echo (h : Follows behind k s t) (hin : InTag s.nesting)
    (hguard : Stopped behind s.rest) :
    Echo (shiftFault k) behind k (expressionStep defaultRules s)
      (expressionStep defaultRules t) := by
  have hblank : (t.rest.takeWhile Text.isBlank).length =
      (s.rest.takeWhile Text.isBlank).length := by
    rw [h.rest]
    exact hguard.eq (f := fun cs => (cs.takeWhile Text.isBlank).length) fun _ hstop hmem =>
      congrArg List.length (takeWhile_append_of_mem hmem (refused_of_stop hstop (by decide)))
  have hmore := h.advance (length_takeWhile_le Text.isBlank s.rest)
  have hguard' : Stopped behind (s.advance (s.rest.takeWhile Text.isBlank).length).rest :=
    hguard.drop fun _ hstop hmem => mem_drop_takeWhile hmem (refused_of_stop hstop (by decide))
  unfold expressionStep
  simp only [hblank]
  cases hrest : (s.advance (s.rest.takeWhile Text.isBlank).length).rest with
  | nil =>
    obtain rfl : behind = [] := by
      refine hguard'.resolve_right ?_
      rintro ⟨stop, -, hmem⟩
      rw [hrest] at hmem
      cases hmem
    rw [hmore.rest, hrest]
    simp only [List.append_nil]
    split
    · exact .piece hmore
    · exact .fault_eq (unclosedTag_shift hmore hin)
  | cons c cs =>
    rw [hmore.rest, hrest]
    exact wordStep_echo hmore hin hguard' hrest

theorem closeOrExpression_echo {close : Pattern} {kind : TokenKind} {closing : List Char}
    (hbounded : Pattern.Bounded close) (h : Follows behind k s t) (hin : InTag s.nesting)
    (hleave : InTag s.nesting.tail → InTag s.nesting) (hguard : Guarded behind s.rest)
    (hclose : s.brackets = [] → close.length? t.rest = close.length? s.rest) :
    Echo (shiftFault k) behind k (closeOrExpression defaultRules close kind closing s)
      (closeOrExpression defaultRules close kind closing t) := by
  have hsame : (if t.brackets.isEmpty then close.length? t.rest else none) =
      if s.brackets.isEmpty then close.length? s.rest else none := by
    rw [h.brackets, List.isEmpty_map]
    split
    · next hempty => exact hclose (List.isEmpty_iff.1 hempty)
    · rfl
  unfold closeOrExpression
  rw [hsame]
  split
  · next n hn =>
    have hle : n ≤ s.rest.length := by
      split at hn
      · exact hbounded.length?_le hn
      · simp at hn
    exact .token h ((h.advance hle).leave hleave) _ _
  · exact expressionStep_echo h hin hguard.stopped

theorem blockStep_echo (h : Follows behind k s t) (hnest : s.nesting = [.block])
    (hguard : Guarded behind s.rest) :
    Echo (shiftFault k) behind k
      (closeOrExpression defaultRules defaultRules.blockClose .blockEnd
        defaultRules.block.closing s)
      (closeOrExpression defaultRules defaultRules.blockClose .blockEnd
        defaultRules.block.closing t) := by
  refine closeOrExpression_echo (bounded_blockClose _) h ?_ ?_ hguard fun _ => ?_
  · rw [hnest]
    exact trivial
  · rw [hnest]
    exact fun hin => hin.elim
  · rw [h.rest]
    exact hguard.eq fun hend => blockClose_steady.isLocal.length? hend behind

theorem State.advance_zero (s : State) : s.advance 0 = s :=
  rfl

/-- A brace that closes nothing is a fault. -/
theorem printStep_of_brace (hrest : s.rest = ['\x7d']) (hbrackets : s.brackets = []) :
    closeOrExpression defaultRules defaultRules.printClose .varEnd defaultRules.print.closing s =
      .error (.unexpectedCloser '\x7d', s.line) := by
  have hoperator : defaultRules.operator? s.previous ['\x7d'] = none :=
    operator?_of_head (by decide) (by decide)
  have hclose : defaultRules.printClose.length? ['\x7d'] = none := rfl
  have hblank : (['\x7d'].takeWhile Text.isBlank).length = 0 := rfl
  have hname : nameLength ['\x7d'] = 0 := rfl
  have hnumber : numberLength ['\x7d'] = 0 := rfl
  have hpunctuation : isPunctuation '\x7d' = true := rfl
  have hopener : bracketOf? '\x7d' = some '\x7b' := rfl
  simp only [closeOrExpression, hrest, hclose, ite_self, expressionStep, hblank,
    State.advance_zero, wordStep, hoperator, hname, hnumber, ne_eq, not_true_eq_false, if_false,
    hpunctuation, if_true, punctuationStep, hopener, hbrackets]

theorem printStep_echo (h : Follows behind k s t) (hnest : s.nesting = [.print])
    (hguard : Guarded behind s.rest) :
    Echo (shiftFault k) behind k
      (closeOrExpression defaultRules defaultRules.printClose .varEnd
        defaultRules.print.closing s)
      (closeOrExpression defaultRules defaultRules.printClose .varEnd
        defaultRules.print.closing t) := by
  by_cases hbrace : behind ≠ [] ∧ s.rest = ['\x7d'] ∧ s.brackets = []
  · obtain ⟨hbehind, hrest, hbrackets⟩ := hbrace
    rw [printStep_of_brace hrest hbrackets]
    exact .refused hbehind _ _
  refine closeOrExpression_echo (bounded_printClose _) h ?_ ?_ hguard fun hbrackets => ?_
  · rw [hnest]
    exact trivial
  · rw [hnest]
    exact fun hin => hin.elim
  · rw [h.rest]
    rcases hguard with rfl | hend
    · rw [List.append_nil]
    by_cases hbehind : behind = []
    · rw [hbehind, List.append_nil]
    · have hne : s.rest ≠ ['\x7d'] := fun hrest => hbrace ⟨hbehind, hrest, hbrackets⟩
      unfold Pattern.length?
      rw [printClose_append hend hne]

theorem interpolationStep_echo (h : Follows behind k s t) (hin : InTag s.nesting)
    (hleave : InTag s.nesting.tail → InTag s.nesting) (hguard : Stopped behind s.rest) :
    Echo (shiftFault k) behind k (interpolationStep defaultRules s)
      (interpolationStep defaultRules t) := by
  have hlength : defaultRules.interpolationEnd.length? t.rest =
      defaultRules.interpolationEnd.length? s.rest := by
    rw [h.rest]
    exact hguard.eq fun _ hstop hmem => congrArg List.head? (interpolationEnd_append hstop hmem _)
  unfold interpolationStep
  cases hbrackets : s.brackets with
  | nil =>
    rw [h.brackets, hbrackets]
    exact expressionStep_echo h hin hguard
  | cons innermost outer =>
    simp only [h.brackets, hbrackets, List.map_cons, Bracket.shift, hlength]
    split
    · next n hn =>
      have hle : n ≤ s.rest.length := by
        split at hn
        · exact (bounded_interpolationEnd _).length?_le hn
        · simp at hn
      exact .token h (((h.setBrackets outer).advance hle).leave hleave) _ _
    · exact expressionStep_echo h hin hguard

/-- The plain part of a string ends alike, or it goes up to the end. -/
theorem plainLength_append_or (cs behind : List Char) :
    plainLength ['#', '\x7b'] (cs ++ behind) = plainLength ['#', '\x7b'] cs ∨
      behind ≠ [] ∧ plainLength ['#', '\x7b'] cs = cs.length := by
  by_cases hbehind : behind = []
  · rw [hbehind, List.append_nil]
    exact .inl rfl
  rcases Nat.lt_or_eq_of_le (plainLength_le ['#', '\x7b'] cs) with hlt | heq
  · exact .inl (plainLength_append hlt)
  · exact .inr ⟨hbehind, heq⟩

theorem stringStep_echo {outer : List Nesting} (h : Follows behind k s t)
    (hnest : s.nesting = .string :: outer) (hin : InTag outer) (hs : s.rest ≠ [])
    (hguard : Stopped behind s.rest) :
    Echo (shiftFault k) behind k (stringStep defaultRules s) (stringStep defaultRules t) := by
  have hin' : InTag s.nesting := by
    rw [hnest]
    exact hin
  have hstart : defaultRules.interpolationStart.length? t.rest =
      defaultRules.interpolationStart.length? s.rest := by
    rw [h.rest]
    exact hguard.eq fun _ hstop hmem =>
      congrArg List.head? (interpolationStart_append hstop hmem _)
  cases hlength : defaultRules.interpolationStart.length? s.rest with
  | some n =>
    have hle := (bounded_interpolationStart _).length?_le hlength
    unfold stringStep
    rw [hstart, hlength]
    exact .token h (((h.openBracket _).advance hle).enter fun _ => hin') _ _
  | none =>
    rw [hlength] at hstart
    have hle := plainLength_le defaultRules.interpolation.opening s.rest
    rcases plainLength_append_or s.rest behind with hplain | ⟨hbehind, hplain⟩
    · have hplain : plainLength defaultRules.interpolation.opening t.rest =
          plainLength defaultRules.interpolation.opening s.rest := by
        rw [h.rest]
        exact hplain
      by_cases hzero : plainLength defaultRules.interpolation.opening s.rest = 0
      · obtain ⟨c, cs, hrest⟩ := List.exists_cons_of_ne_nil hs
        have hrest' : t.rest = c :: (cs ++ behind) := by rw [h.rest, hrest, List.cons_append]
        by_cases hquote : c = '"'
        · subst hquote
          have hone : 1 ≤ s.rest.length := List.length_pos_iff.2 hs
          have hleave : InTag s.nesting.tail → InTag s.nesting := fun _ => hin'
          rw [stringStep_quote hlength hrest, stringStep_quote hstart hrest', h.brackets]
          cases hbrackets : s.brackets with
          | nil => exact .piece ((h.leave hleave).advance hone)
          | cons innermost outer =>
            simp only [List.map_cons, Bracket.shift]
            split
            · exact .piece (((h.setBrackets outer).leave hleave).advance hone)
            · exact .fault _
        · rw [stringStep_other hlength hrest hquote hzero,
            stringStep_other hstart hrest' hquote (hplain.trans hzero)]
          exact .fault_eq (congrArg (Prod.mk _) h.line)
      · rw [stringStep_plain hlength hzero, stringStep_plain hstart (by rwa [hplain]), hplain,
          h.take hle]
        exact .token h (h.advance hle) _ _
    · have hne : plainLength defaultRules.interpolation.opening s.rest ≠ 0 := by
        have := List.length_pos_iff.2 hs
        show plainLength ['#', '\x7b'] s.rest ≠ 0
        omega
      rw [stringStep_plain hlength hne]
      have hnil : s.rest.drop (plainLength ['#', '\x7b'] s.rest) = [] := by
        rw [hplain, List.drop_length]
      let u := s.advance (plainLength ['#', '\x7b'] s.rest)
      have hlost : plainLength ['#', '\x7b'] u.rest = u.rest.length := by
        rw [show u.rest = [] from hnil]
        rfl
      exact .lost hbehind (.string (t := u) hnest hin hlost) _

/-- Only the end of a tag depends on how the text ends. -/
theorem partStep_echo (h : Follows behind k s t) (hin : InTag s.nesting) (hs : s.rest ≠ [])
    (hstop : Stopped behind s.rest)
    (hguard : s.nesting = [.block] ∨ s.nesting = [.print] → Guarded behind s.rest) :
    Echo (Failure.shift k) behind k (partStep defaultRules s) (partStep defaultRules t) := by
  unfold partStep
  rw [h.nesting]
  cases hnest : s.nesting with
  | nil =>
    rw [hnest] at hin
    exact hin.elim
  | cons part outer =>
    rw [hnest] at hin
    cases part with
    | block =>
      cases outer with
      | nil => exact (blockStep_echo h hnest (hguard (.inl hnest))).rejected
      | cons => exact hin.elim
    | print =>
      cases outer with
      | nil => exact (printStep_echo h hnest (hguard (.inr hnest))).rejected
      | cons => exact hin.elim
    | string => exact (stringStep_echo h hnest hin hs hstop).rejected
    | interpolation =>
      have hin' : InTag s.nesting := by rwa [hnest]
      exact (interpolationStep_echo h hin' (fun _ => hin') hstop).rejected
    | comment => exact hin.elim

/-- What is found in front of the end of a print tag is found there whatever stands behind. -/
theorem findFirst?_append_or {α : Type} {read? : List Char → Option α}
    (hguard : cs ≠ [] → Guarded behind cs)
    (hread : ∀ cs, PrintEnd cs → read? (cs ++ behind) = read? cs) (hnil : read? [] = none) :
    findFirst? read? (cs ++ behind) = findFirst? read? cs ∨
      behind ≠ [] ∧ findFirst? read? cs = none := by
  by_cases hbehind : behind = []
  · rw [hbehind, List.append_nil]
    exact .inl rfl
  cases hfound : findFirst? read? cs with
  | none => exact .inr ⟨hbehind, rfl⟩
  | some found =>
    have hne : cs ≠ [] := by
      rintro rfl
      simp [findFirst?, hnil] at hfound
    have hend := (hguard hne).resolve_left hbehind
    exact .inl (findFirst?_append_of_printEnd hread hnil hend hfound)

theorem realSearch_append_or (hguard : cs ≠ [] → Guarded behind cs) :
    realSearch defaultRules (cs ++ behind) = realSearch defaultRules cs ∨
      behind ≠ [] ∧ realSearch defaultRules cs = none :=
  findFirst?_append_or hguard (fun _ hcs => commentClose_steady.isLocal.length? hcs behind) rfl

theorem commentStep_echo (h : Follows behind k s t) (hnest : s.nesting = [.comment])
    (hguard : s.rest ≠ [] → Guarded behind s.rest) :
    Echo (shiftFault k) behind k (commentStep defaultRules s) (commentStep defaultRules t) := by
  have hleave : InTag s.nesting.tail → InTag s.nesting := by
    rw [hnest]
    exact fun hin => hin.elim
  unfold commentStep
  rw [h.rest]
  rcases realSearch_append_or hguard with hsame | ⟨hbehind, hnone⟩
  · rw [hsame]
    cases hsearch : realSearch defaultRules s.rest with
    | none => exact .fault_eq (congrArg (Prod.mk _) h.line)
    | some found =>
      simp only [h.token]
      exact .piece ((h.advance (realSearch_le hsearch)).leave hleave)
  · rw [hnone]
    exact .refused hbehind _ _

theorem verbatimStep_echo (h : Follows behind k s t)
    (hguard : s.rest ≠ [] → Guarded behind s.rest) :
    Echo (shiftFault k) behind k (verbatimStep defaultRules s) (verbatimStep defaultRules t) := by
  unfold verbatimStep
  rw [h.rest]
  rcases findFirst?_append_or hguard (fun _ hcs => verbatimEnd?_append hcs behind) rfl with
    hsame | ⟨hbehind, hnone⟩
  · rw [hsame]
    cases hfound : findFirst? defaultRules.verbatimEnd? s.rest with
    | none => exact .fault_eq (congrArg (Prod.mk _) h.line)
    | some found =>
      have hle := findFirst?_le hfound (n := found.2.2) fun _ hread => verbatimEnd?_le hread
      simp only [h.textTokens]
      exact .piece (h.advance hle)
  · rw [hnone]
    exact .refused hbehind _ _

inductive DataEcho (behind : List Char) (k : Nat) :
    Except Located DataPiece → Except Located DataPiece → Prop
  | lexed {x y : Except Located Piece} (h : Echo (shiftFault k) behind k x y) :
      DataEcho behind k (x.map .lexed) (y.map .lexed)
  | openComment {tokens : List Token} {s t : State} (h : Follows behind k s t)
      (hguard : s.rest ≠ [] → Guarded behind s.rest) :
      DataEcho behind k (.ok (.openComment (tokens, s)))
        (.ok (.openComment (tokens.map (Token.shift k), t)))
  | lost (hbehind : behind ≠ []) {piece : Piece} (h : Lost piece) (y : Except Located DataPiece) :
      DataEcho behind k (.ok (.lexed piece)) y

theorem Lost.after {tokens more : List Token} (h : Lost (more, s)) : Lost (tokens ++ more, s) := by
  cases h with
  | text hrest hnest hlast =>
    obtain ⟨x, hx, hkind⟩ := hlast
    refine .text hrest hnest ⟨x, ?_, hkind⟩
    rw [List.getLast?_append, hx]
    rfl
  | block hrest hnest => exact .block hrest hnest
  | string hnest hin hplain => exact .string hnest hin hplain

theorem Echo.after {x y : Except Located Piece} (h : Echo (shiftFault k) behind k x y)
    (tokens : List Token) :
    Echo (shiftFault k) behind k (x.map (Piece.after tokens))
      (y.map (Piece.after (tokens.map (Token.shift k)))) := by
  cases h with
  | fault e => exact .fault e
  | @piece more s t h =>
    have hpiece : Echo (shiftFault k) behind k (.ok (tokens ++ more, s))
        (.ok ((tokens ++ more).map (Token.shift k), t)) := .piece h
    rwa [List.map_append] at hpiece
  | refused hbehind e => exact .refused hbehind e _
  | lost hbehind h => exact .lost hbehind h.after _

theorem map_lexed_after (tokens : List Token) (x : Except Located Piece) :
    (x.map DataPiece.lexed).map (DataPiece.after tokens) =
      (x.map (Piece.after tokens)).map DataPiece.lexed := by
  cases x <;> rfl

theorem DataEcho.after {x y : Except Located DataPiece} (h : DataEcho behind k x y)
    (tokens : List Token) :
    DataEcho behind k (x.map (DataPiece.after tokens))
      (y.map (DataPiece.after (tokens.map (Token.shift k)))) := by
  cases h with
  | lexed h =>
    rw [map_lexed_after, map_lexed_after]
    exact .lexed (h.after tokens)
  | @openComment more s t h hguard =>
    have hopen : DataEcho behind k (.ok (.openComment (tokens ++ more, s)))
        (.ok (.openComment ((tokens ++ more).map (Token.shift k), t))) := .openComment h hguard
    rwa [List.map_append] at hopen
  | lost hbehind h y => exact .lost hbehind h.after _

theorem enterTag_echo {part : Nesting} {kind : TokenKind} {opening : List Char}
    (h : Follows behind k s t) (hprevious : t.previous = s.previous) :
    DataEcho behind k (.ok (.lexed (enterTag part kind opening s)))
      (.ok (.lexed (enterTag part kind opening t))) := by
  have hfollows : Follows behind k { s.enter part with tagLine := s.line }
      { t.enter part with tagLine := t.line } :=
    ⟨h.rest, h.line, congrArg (part :: ·) h.nesting, h.brackets, fun _ => ⟨hprevious, h.line⟩⟩
  exact .lexed (x := .ok (enterTag part kind opening s)) (.token h hfollows _ _)

theorem tagStep_echo {kind : TagKind} (h : Follows behind k s t)
    (hprevious : t.previous = s.previous) (hnest : s.nesting = [])
    (hguard : s.rest ≠ [] → Guarded behind s.rest) :
    DataEcho behind k (tagStep defaultRules armedSearch kind s)
      (tagStep defaultRules armedSearch kind t) := by
  cases kind with
  | comment =>
    simp only [tagStep, armedSearch_eq_none]
    exact .openComment h hguard
  | print => exact enterTag_echo h hprevious
  | block =>
    have hword : Pattern.Steady (defaultRules.wordTag "verbatim") := wordTag_steady (by decide)
    simp only [tagStep, h.rest]
    by_cases hend : s.rest = [] ∧ behind ≠ []
    · obtain ⟨hrest, hbehind⟩ := hend
      have hnone : (defaultRules.wordTag "verbatim").length? s.rest = none := by
        rw [hrest]
        rfl
      rw [hnone]
      have hlost : Lost (enterTag .block .blockStart defaultRules.block.opening s) :=
        .block hrest (congrArg (Nesting.block :: ·) hnest)
      exact .lost hbehind hlost _
    have hguard : Guarded behind s.rest := by
      by_cases hrest : s.rest = []
      · exact .inl (by_contra fun hbehind => hend ⟨hrest, hbehind⟩)
      · exact hguard hrest
    have hsame : (defaultRules.wordTag "verbatim").length? (s.rest ++ behind) =
        (defaultRules.wordTag "verbatim").length? s.rest :=
      hguard.eq fun hend => hword.isLocal.length? hend behind
    rw [hsame]
    split
    · next n hn =>
      have hle := (bounded_wordTag _ _).length?_le hn
      refine .lexed (verbatimStep_echo (h.advance hle) fun hne => ?_)
      rcases hguard with hbehind | hend
      · exact .inl hbehind
      · exact .inr (hend.suffix (List.drop_suffix _ _) hne)
    · exact enterTag_echo h hprevious

theorem tagStarts_append (h : Guarded behind cs) {start : TagStart} {later : List TagStart}
    (hstarts : defaultRules.tagStarts cs = start :: later) :
    ∃ more, defaultRules.tagStarts (cs ++ behind) = start :: more := by
  rcases h with rfl | hend
  · rw [List.append_nil]
    exact ⟨later, hstarts⟩
  · have hlast : ∀ c ∈ cs.getLast?, c ∉ openingChars := by
      rw [hend.getLast?_eq]
      simp [openingChars]
    have := tagStartsFrom_append hlast behind (Nat.zero_le _) 0
    rw [Rules.tagStarts] at hstarts
    rw [hstarts] at this
    exact ⟨_, this⟩

theorem previous_advance_pos (h : Follows behind k s t) (hpos : 0 < n) (hn : n ≤ s.rest.length) :
    (t.advance n).previous = (s.advance n).previous := by
  have hs : s.rest ≠ [] := by
    rintro hrest
    simp only [hrest, List.length_nil] at hn
    omega
  have ht : t.rest ≠ [] := by
    rw [h.rest]
    exact List.append_ne_nil_of_left_ne_nil hs behind
  rw [State.previous_advance (by omega) ht, State.previous_advance (by omega) hs, h.take hn]

theorem dataStep_echo (h : Follows behind k s t) (hnest : s.nesting = []) (hs : s.rest ≠ [])
    (hguard : Guarded behind s.rest) (hscanned : Scanned s) (hscanned' : Scanned t) :
    DataEcho behind k (dataStep defaultRules armedSearch s)
      (dataStep defaultRules armedSearch t) := by
  have htags := hscanned.tagsAhead_eq
  have htags' := hscanned'.tagsAhead_eq
  rw [h.rest] at htags'
  unfold State.tagsAhead at htags htags'
  unfold dataStep
  rw [htags, htags']
  cases hstarts : defaultRules.tagStarts s.rest with
  | nil =>
    by_cases hbehind : behind = []
    · subst hbehind
      have hrest : t.rest = s.rest := by rw [h.rest, List.append_nil]
      rw [List.append_nil, hstarts]
      simp only [List.map_nil, hrest, h.textTokens]
      exact .lexed (x := .ok _) (y := .ok _) (.piece (h.advance (Nat.le_refl _)))
    · have hlost : Lost (s.textTokens s.rest, s.advance s.rest.length) := by
        refine .text (by simp) hnest ⟨s.token .text s.rest, ?_, rfl⟩
        simp [State.textTokens, hs]
      exact .lost hbehind hlost _
  | cons start later =>
    obtain ⟨more, hmore⟩ := tagStarts_append hguard hstarts
    have hmem : start ∈ defaultRules.tagStarts s.rest := hstarts ▸ List.mem_cons_self ..
    have hpos := tagStartsFrom_length_pos start hmem
    have hle : start.offset + start.length ≤ s.rest.length := by
      have := tagStartsFrom_le start hmem
      rwa [Nat.zero_add] at this
    simp only [hmore, List.map_cons, TagStart.move, Nat.add_sub_cancel_left, h.textTokens,
      h.take (show start.offset ≤ s.rest.length by omega)]
    refine DataEcho.after (tagStep_echo ((h.advance hle).setTags _ _) ?_ hnest fun hne => ?_) _
    · exact previous_advance_pos h (by omega) hle
    · rcases hguard with hbehind | hend
      · exact .inl hbehind
      · exact .inr (hend.suffix (List.drop_suffix _ _) hne)

theorem keepStep_echo (h : Follows behind k s t) (hnest : s.nesting = [])
    (hdata : DataEcho behind k (dataStep defaultRules armedSearch s)
      (dataStep defaultRules armedSearch t)) :
    Echo (Failure.shift k) behind k (keepStep defaultRules s) (keepStep defaultRules t) := by
  unfold keepStep
  rw [h.nesting, hnest]
  simp only
  generalize dataStep defaultRules armedSearch s = x at hdata ⊢
  generalize dataStep defaultRules armedSearch t = y at hdata ⊢
  cases hdata with
  | lexed h =>
    cases h with
    | fault e => exact .fault (Failure.rejected e)
    | piece h => exact .piece h
    | refused hbehind e => exact .refused hbehind _ _
    | lost hbehind h => exact .lost hbehind h _
  | openComment h => exact .piece (h.enter fun hin => hin.elim)
  | lost hbehind h => exact .lost hbehind h _

theorem dropStep_echo (h : Follows behind k s t) (hnest : s.nesting = [])
    (hdata : DataEcho behind k (dataStep defaultRules armedSearch s)
      (dataStep defaultRules armedSearch t)) :
    Echo (Failure.shift k) behind k (dropStep defaultRules s) (dropStep defaultRules t) := by
  unfold dropStep
  rw [h.nesting, hnest, dataStep_realSearch, dataStep_realSearch]
  simp only
  generalize dataStep defaultRules armedSearch s = x at hdata ⊢
  generalize dataStep defaultRules armedSearch t = y at hdata ⊢
  cases hdata with
  | lexed h =>
    cases h with
    | fault e => exact .fault (Failure.rejected e)
    | piece h => exact .piece h
    | refused hbehind e => exact .refused hbehind _ _
    | lost hbehind h => exact .lost hbehind h _
  | @openComment tokens u v h hguard =>
    simp only [Except.map, closeComment, h.rest]
    rcases realSearch_append_or hguard with hsame | ⟨hbehind, hnone⟩
    · rw [hsame]
      cases hsearch : realSearch defaultRules u.rest with
      | none => exact .fault_eq (congrArg (fun line => Failure.rejected (_, line)) h.line)
      | some found => exact .piece (h.advance (realSearch_le hsearch))
    · rw [hnone]
      exact .refused hbehind _ _
  | lost hbehind h => exact .lost hbehind h _

/-- A step is taken by the second lexer too, or the first one fails or is lost. -/
theorem step_echo {comments : Comments} (hsound : Sound comments s)
    (hdone : isDone comments s = false) (h : Follows behind k s t)
    (hguard : s.rest ≠ [] → Guarded behind s.rest)
    (hscanned : s.nesting = [] → Scanned s ∧ Scanned t) :
    Echo (Failure.shift k) behind k (step defaultRules comments s)
      (step defaultRules comments t) := by
  obtain ⟨-, hplaced⟩ := hsound
  generalize hplace : s.nesting = nesting at hplaced
  cases hplaced with
  | text =>
    have hs := rest_ne_nil_of_isDone (.inl hplace) hdone
    obtain ⟨hs', ht'⟩ := hscanned hplace
    have hdata := dataStep_echo h hplace hs (hguard hs) hs' ht'
    cases comments with
    | drop => exact dropStep_echo h hplace hdata
    | keep => exact keepStep_echo h hplace hdata
  | tag htag =>
    rw [← hplace] at htag
    have hs := rest_ne_nil_of_isDone (.inr htag) hdone
    rw [step_of_inTag htag, step_of_inTag (by rwa [h.nesting])]
    exact partStep_echo h htag hs (hguard hs).stopped fun _ => hguard hs
  | comment hkeep =>
    subst hkeep
    simp only [step, keepStep, h.nesting, hplace]
    exact (commentStep_echo h hplace hguard).rejected

end

end Lexer

end TemplateEngine
