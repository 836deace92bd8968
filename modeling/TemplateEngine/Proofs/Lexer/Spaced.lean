import TemplateEngine.Proofs.Lexer.Operators
import TemplateEngine.Proofs.Lexer.Runs

/-!
The default lexer on lexemes with a space in front of each. Main statement: between the delimiters
of a print tag, lexemes that are spelled well and whose brackets match are read as one token each.
-/

namespace TemplateEngine.Lexer

theorem advance_space {s : State} {cs : List Char} (hrest : s.rest = ' ' :: cs) :
    (s.advance 1).rest = cs ∧ (s.advance 1).previous = some ' ' ∧
      (s.advance 1).nesting = s.nesting ∧ (s.advance 1).brackets = s.brackets := by
  have hprevious : (s.advance 1).previous = some ' ' := by simp [State.advance, hrest]
  exact ⟨by simp [hrest], hprevious, rfl, rfl⟩

/-- A step inside a print tag passes over the space and reads what follows it. -/
theorem step_print {s : State} {c : Char} {cs : List Char} (hnest : s.nesting = [.print])
    (hrest : s.rest = ' ' :: c :: cs) (hblank : Text.isBlank c = false)
    (hclose : defaultRules.printClose.length? (' ' :: c :: cs) = none) :
    step defaultRules .drop s = (wordStep defaultRules c (s.advance 1)).mapError .rejected := by
  have htake : (s.rest.takeWhile Text.isBlank).length = 1 := by
    rw [hrest, List.takeWhile_cons_of_pos (by decide),
      List.takeWhile_cons_of_neg (by simp [hblank])]
    rfl
  have hspace := (advance_space hrest).1
  have hword : expressionStep defaultRules s = wordStep defaultRules c (s.advance 1) := by
    unfold expressionStep
    simp only [htake, hspace]
  simp only [step, dropStep, hnest, partStep, closeOrExpression]
  rw [hrest, hclose, ite_self, hword]

/-- A step over a space and the end of a print tag. -/
theorem step_printEnd (comments : Comments) {s : State} (hnest : s.nesting = [.print])
    (hbrackets : s.brackets = []) (hrest : s.rest = [' ', '\x7d', '\x7d']) :
    ∃ closing t, step defaultRules comments s = .ok ([closing], t) ∧ closing.kind = .varEnd ∧
      t.nesting = [] ∧ t.brackets = [] ∧ t.rest = [] := by
  have hend : defaultRules.printClose.length? [' ', '\x7d', '\x7d'] = some 3 := rfl
  have hclose : partStep defaultRules s =
      .ok ([s.token .varEnd ['\x7d', '\x7d']], (s.advance 3).leave) := by
    simp only [partStep, hnest, closeOrExpression, hbrackets, List.isEmpty_nil, if_true, hrest,
      hend]
    rfl
  refine ⟨s.token .varEnd ['\x7d', '\x7d'], (s.advance 3).leave, ?_, rfl, ?_, hbrackets, ?_⟩
  · cases comments <;> simp only [step, dropStep, keepStep, hnest, hclose]
  · simp [State.leave, hnest]
  · simp [State.leave, hrest]

structure Crosses (s : State) (ts : List Token) (t : State) (more : List Char) : Prop where
  nesting : t.nesting = [.print]
  rest : t.rest = ' ' :: more
  run (steps : Nat) : run defaultRules .drop (steps + ts.length) s =
    (run defaultRules .drop steps t).map (Piece.after ts)

theorem Crosses.trans {s t u : State} {ts us : List Token} {middle more : List Char}
    (h : Crosses s ts t middle) (hmore : Crosses t us u more) : Crosses s (ts ++ us) u more where
  nesting := hmore.nesting
  rest := hmore.rest
  run steps := by
    have hlength : steps + (ts ++ us).length = steps + us.length + ts.length := by
      rw [List.length_append]
      omega
    rw [hlength, h.run, hmore.run, map_after_after]

theorem crosses_step {s t : State} {token : Token} {more : List Char} (hs : s.rest ≠ [])
    (hstep : step defaultRules .drop s = .ok ([token], t)) (hnest : t.nesting = [.print])
    (hrest : t.rest = ' ' :: more) : Crosses s [token] t more where
  nesting := hnest
  rest := hrest
  run steps := run_succ (isDone_eq_false hs) hstep steps

/-- Lexemes that are read as one token each inside a print tag. What is open stays so, and no line
break is written in a way that would be changed before. -/
structure Lexes (ws : List Lexeme) : Prop where
  breaks : '\r' ∉ spaced ws
  crosses {s : State} {more : List Char} : s.nesting = [.print] →
    s.rest = spaced ws ++ ' ' :: more →
      ∃ t ts, Spells ws ts ∧ t.brackets = s.brackets ∧ Crosses s ts t more

/-- Lexemes with a space behind them begin with a space. -/
theorem exists_spaced_append (ws : List Lexeme) (more : List Char) :
    ∃ middle, spaced ws ++ ' ' :: more = ' ' :: middle := by
  cases ws <;> exact ⟨_, rfl⟩

theorem lexes_nil : Lexes [] := by
  constructor
  · simp
  · intro s more hnest hrest
    refine ⟨s, [], spells_nil_iff.2 rfl, rfl, hnest, hrest, ?_⟩
    intro steps
    cases h : run defaultRules .drop steps s with
    | error e => simp [Except.map]
    | ok piece => simp [Except.map, Piece.after]

theorem Lexes.append {vs ws : List Lexeme} (hvs : Lexes vs) (hws : Lexes ws) :
    Lexes (vs ++ ws) := by
  constructor
  · simp [hvs.breaks, hws.breaks]
  · intro s more hnest hrest
    obtain ⟨middle, hmiddle⟩ := exists_spaced_append ws more
    rw [spaced_append, List.append_assoc, hmiddle] at hrest
    obtain ⟨t, ts, hts, hbrackets, ht⟩ := hvs.crosses hnest hrest
    obtain ⟨u, us, hus, hbrackets', hu⟩ := hws.crosses ht.nesting (by rw [ht.rest, hmiddle])
    exact ⟨u, ts ++ us, spells_append_iff.2 ⟨ts, us, rfl, hts, hus⟩, hbrackets'.trans hbrackets,
      ht.trans hu⟩

/-- What must be known of the text of a lexeme that opens and closes nothing: it does not begin like
the white space or the end of a tag, and behind a space it is read as the token. -/
structure ReadsAs (w : Lexeme) (more : List Char) : Prop where
  ne_nil : w.chars ≠ []
  blank : w.chars.head?.any Text.isBlank = false
  close : defaultRules.printClose.length? (' ' :: (w.chars ++ ' ' :: more)) = none
  word {s : State} {c : Char} : c ∈ w.chars.head? → s.previous = some ' ' →
    s.rest = w.chars ++ ' ' :: more →
      wordStep defaultRules c s = .ok ([⟨w.kind, w.value, s.line⟩], s.advance w.chars.length)

theorem ReadsAs.crosses {w : Lexeme} {s : State} {more : List Char} (h : ReadsAs w more)
    (hnest : s.nesting = [.print]) (hrest : s.rest = ' ' :: (w.chars ++ ' ' :: more)) :
    ∃ t token, token.spelling = w.spelling ∧ t.brackets = s.brackets ∧
      Crosses s [token] t more := by
  obtain ⟨c, cs, hchars⟩ := List.exists_cons_of_ne_nil h.ne_nil
  have hc : c ∈ w.chars.head? := by simp [hchars]
  have hblank : Text.isBlank c = false := by simpa [hchars] using h.blank
  obtain ⟨hrest', hprevious, hnest', hbrackets⟩ := advance_space hrest
  have hstep : step defaultRules .drop s =
      .ok ([⟨w.kind, w.value, (s.advance 1).line⟩], (s.advance 1).advance w.chars.length) := by
    have hclose := h.close
    have hrest'' := hrest
    rw [hchars] at hclose hrest''
    rw [step_print hnest hrest'' hblank hclose, h.word hc hprevious hrest']
    rfl
  refine ⟨(s.advance 1).advance w.chars.length, _, rfl, hbrackets,
    crosses_step (by rw [hrest]; simp) hstep ?_ ?_⟩
  · exact hnest'.trans hnest
  · rw [State.rest_advance, hrest', List.drop_left]

theorem lexes_of_readsAs {w : Lexeme} (hbreaks : '\r' ∉ w.chars) (h : ∀ more, ReadsAs w more) :
    Lexes [w] := by
  constructor
  · simp [hbreaks]
  · intro s more hnest hrest
    rw [spaced_cons, spaced_nil, List.append_nil, List.cons_append] at hrest
    obtain ⟨t, token, htoken, hbrackets, hcrosses⟩ := (h more).crosses hnest hrest
    exact ⟨t, [token], spells_singleton htoken, hbrackets, hcrosses⟩

/-- A name in front of a character that cannot be one of its own is read whole. -/
theorem wordStep_name {text : String} (h : IsName text) {s : State} {c behind : Char}
    {more : List Char} (hbehind : isNameChar behind = false)
    (hrest : s.rest = text.toList ++ behind :: more) :
    wordStep defaultRules c s =
      .ok ([s.token .name text.toList], s.advance text.toList.length) := by
  have hidentifier : isIdentifierChar behind = false := by
    rw [Bool.eq_false_iff]
    intro hchar
    rw [isNameChar_of_isIdentifierChar hchar] at hbehind
    cases hbehind
  have hpos : text.toList.length ≠ 0 := by
    obtain ⟨c, cs, hcs, -⟩ := h.1
    simp [hcs]
  unfold wordStep
  simp only [hrest, operator?_name h hidentifier, nameLength_identifier h.1 hbehind, ne_eq, hpos,
    not_false_eq_true, if_true, List.take_left]

/-- Where a number begins, it is read whole. -/
theorem wordStep_number {s : State} {c : Char} {chars more : List Char}
    (hdigit : chars.head?.any Char.isDigit = true) (hrest : s.rest = chars ++ more)
    (hnumber : numberLength (chars ++ more) = chars.length) :
    wordStep defaultRules c s = .ok ([s.token .number chars], s.advance chars.length) := by
  obtain ⟨d, ds, rfl, hd⟩ : ∃ d ds, chars = d :: ds ∧ PlainHead d := by
    cases chars with
    | nil => cases hdigit
    | cons d ds => exact ⟨d, ds, rfl, plainHead_of_isDigit (by simpa using hdigit)⟩
  have hpos : (d :: ds).length ≠ 0 := by simp
  have htake : (d :: ds ++ more).take (d :: ds).length = d :: ds := List.take_left
  rw [List.cons_append] at hrest hnumber htake
  unfold wordStep
  simp only [hrest, hd.operator?, hd.nameLength, hnumber, ne_eq, not_true_eq_false, if_false, hpos,
    not_false_eq_true, if_true, htake]

theorem readsAs_name {text : String} (h : IsName text) (more : List Char) :
    ReadsAs (.name text) more := by
  obtain ⟨c, cs, hcs, hc, -⟩ := h.1
  have hhead : (Lexeme.name text).chars.head? = some c := by rw [Lexeme.chars, hcs, List.head?_cons]
  have hblank := isBlank_of_isIdentifierChar (isIdentifierChar_of_start hc)
  have hclosing : c ∉ closingHeads :=
    not_mem_closingHeads_of_isIdentifierChar (isIdentifierChar_of_start hc)
  constructor
  · simp [Lexeme.chars, hcs]
  · simp [hhead, hblank]
  · rw [Lexeme.chars, hcs, List.cons_append]
    exact @printClose_eq_none [' '] _ c isGap_space hblank hclosing
  · intro s d _ _ hrest
    rw [Lexeme.chars] at hrest
    rw [wordStep_name h (by decide) hrest]
    simp [State.token, Lexeme.kind, Lexeme.value, Lexeme.chars]

theorem readsAs_number (n : Nat) (more : List Char) : ReadsAs (.number n) more := by
  obtain ⟨c, cs, hcs, hdigits⟩ := Decimal.toDigits_eq_cons n
  have hc := plainHead_of_isDigit (hdigits c (by simp))
  have hchars : (Lexeme.number n).chars = c :: cs := hcs
  constructor
  · simp [hchars]
  · simp [hchars, hc.blank]
  · rw [hchars]
    exact hc.printClose _
  · intro s d _ _ hrest
    have hnumber : numberLength ((Lexeme.number n).chars ++ ' ' :: more) =
        (Lexeme.number n).chars.length := by
      rw [hchars]
      exact numberLength_digits hdigits (by simp) (by decide)
    rw [wordStep_number (by simp [hchars, hdigits]) hrest hnumber]
    rfl

theorem readsAs_string (quote : Quote) (text : String) (more : List Char) :
    ReadsAs (.string quote text) more := by
  have hc := plainHead_quote quote
  have hchars : (Lexeme.string quote text).chars =
      quote.mark :: (quote.escape text.toList ++ [quote.mark]) := rfl
  constructor
  · simp [hchars]
  · simp [hchars, hc.blank]
  · rw [hchars]
    exact hc.printClose _
  · intro s d hd _ hrest
    have hnumber : quote.mark.isDigit = false := by cases quote <;> rfl
    have hpunctuation : isPunctuation quote.mark = false := by cases quote <;> rfl
    have hd : d = quote.mark := by simpa [hchars, eq_comm] using hd
    have hliteral := @stringLiteral?_escape more quote text.toList ' '
    rw [hchars, List.cons_append, List.append_assoc, List.singleton_append] at hrest
    unfold wordStep
    simp only [hrest, hd, hc.operator?, hc.nameLength, numberLength_of_not_isDigit hnumber, ne_eq,
      not_true_eq_false, if_false, hpunctuation, Bool.false_eq_true, hliteral, unescape_escape]
    simp [State.token, Lexeme.kind, Lexeme.value, hchars]

/-- An operator that does not begin like the end of a tag is read where its rule matches. -/
theorem readsAs_operator {text : String} {operator : Operator} {more : List Char}
    (hplain : text.toList ≠ [] ∧ text.toList.head?.any Text.isBlank = false)
    (hclose : defaultRules.printClose.length? (' ' :: (text.toList ++ ' ' :: more)) = none)
    (hoperator : defaultRules.operator? (some ' ') (text.toList ++ ' ' :: more) =
      some (operator, text.toList.length))
    (hvalue : String.ofList operator.value = text) : ReadsAs (.operator text) more := by
  constructor
  · exact hplain.1
  · exact hplain.2
  · exact hclose
  · intro s d _ hprevious hrest
    rw [Lexeme.chars] at hrest
    unfold wordStep
    simp only [hrest, hprevious, hoperator]
    rw [State.token, hvalue]
    rfl

theorem readsAs_binary (op : BinaryOp) (more : List Char) : ReadsAs (.operator op.text) more := by
  have hoperator : ∃ operator, defaultRules.operator? (some ' ') (op.text.toList ++ ' ' :: more) =
      some (operator, op.text.toList.length) ∧ String.ofList operator.value = op.text := by
    cases op <;> exact ⟨_, rfl, rfl⟩
  obtain ⟨operator, hoperator, hvalue⟩ := hoperator
  have hclose :
      defaultRules.printClose.length? (' ' :: (op.text.toList ++ ' ' :: more)) = none := by
    cases op <;> rfl
  exact readsAs_operator (by cases op <;> decide) hclose hoperator hvalue

/-- The word `not` in front of a lexeme that is no operator is not the beginning of `not in`. -/
theorem readsAs_not {w : Lexeme} (hw : NoOperator w) (more : List Char) :
    ReadsAs (.operator "not") (w.chars ++ ' ' :: more) := by
  have hhead : ∀ c ∈ (w.chars ++ ' ' :: more).head?, Text.isBlank c = false := by
    obtain ⟨c, cs, hchars⟩ := List.exists_cons_of_ne_nil hw.ne_nil
    have hc : Text.isBlank c = false := by simpa [hchars] using hw.blank
    simp [hchars, hc]
  have hnotIn := length?_notIn hhead (hw.length? (some ' ') more (by simp [defaultRules]))
  have hoperator : defaultRules.operator? (some ' ')
      ("not".toList ++ ' ' :: (w.chars ++ ' ' :: more)) =
        some (wordOperator 'n' ['o', 't'] [] (by simp), 3) := by
    show defaultRules.operators.findSome? (fun operator =>
      (operator.length? (some ' ') ('n' :: 'o' :: 't' :: ' ' :: (w.chars ++ ' ' :: more))).map
        fun n => (operator, n)) = _
    rw [defaultRules, List.findSome?_cons, hnotIn]
    rfl
  exact readsAs_operator (by decide) rfl hoperator rfl

theorem lexes_not {w : Lexeme} {ws : List Lexeme} (hw : NoOperator w) (h : Lexes (w :: ws)) :
    Lexes (.operator "not" :: w :: ws) := by
  have hbreaks : '\r' ∉ ' ' :: (Lexeme.operator "not").chars := by decide
  constructor
  · rw [spaced_cons, List.mem_append, not_or]
    exact ⟨hbreaks, h.breaks⟩
  · intro s more hnest hrest
    obtain ⟨behind, hbehind⟩ := exists_spaced_append ws more
    have hmiddle : spaced (w :: ws) ++ ' ' :: more = ' ' :: (w.chars ++ ' ' :: behind) := by
      rw [spaced_cons, List.cons_append, List.cons_append, List.append_assoc, hbehind]
    rw [spaced_cons, List.append_assoc, hmiddle] at hrest
    obtain ⟨t, token, htoken, hbrackets, ht⟩ := (readsAs_not hw behind).crosses hnest hrest
    obtain ⟨u, us, hus, hbrackets', hu⟩ := h.crosses ht.nesting (by rw [ht.rest, hmiddle])
    exact ⟨u, token :: us, spells_cons_iff.2 ⟨token, us, rfl, htoken, hus⟩,
      hbrackets'.trans hbrackets, ht.trans hu⟩

theorem wordStep_mark {c : Char} (hc : c ∈ markChars) {s : State}
    {cs : List Char} (hrest : s.rest = c :: cs) :
    wordStep defaultRules c s = punctuationStep c s := by
  have hplain := plainHead_mark hc
  have hnumber : ∀ c ∈ markChars, c.isDigit = false := forall_mem_of_all (by decide)
  have hpunctuation : ∀ c ∈ markChars, isPunctuation c = true := forall_mem_of_all (by decide)
  unfold wordStep
  simp only [hrest, hplain.operator?, hplain.nameLength,
    numberLength_of_not_isDigit (hnumber c hc), ne_eq, not_true_eq_false, if_false,
    hpunctuation c hc, if_true]

theorem step_mark {c : Char} (hc : c ∈ markChars) {s : State}
    {more : List Char} (hnest : s.nesting = [.print]) (hrest : s.rest = ' ' :: c :: more) :
    step defaultRules .drop s = (punctuationStep c (s.advance 1)).mapError .rejected := by
  have hplain := plainHead_mark hc
  rw [step_print hnest hrest hplain.blank (hplain.printClose more),
    wordStep_mark hc (advance_space hrest).1]

/-- A step over a mark to a state that differs from the one behind it by the open brackets. -/
theorem crosses_mark {c : Char} {s : State} {more : List Char} {brackets : List Bracket}
    (hnest : s.nesting = [.print]) (hrest : s.rest = ' ' :: c :: ' ' :: more)
    (hstep : step defaultRules .drop s = .ok ([(s.advance 1).token .punctuation [c]],
      { s.advance 1 with brackets := brackets }.advance 1)) :
    ∃ t token, token.spelling = (Lexeme.mark c).spelling ∧ t.brackets = brackets ∧
      Crosses s [token] t more := by
  have hbehind : ({ s.advance 1 with brackets := brackets }.advance 1).rest = ' ' :: more := by
    simp [hrest]
  exact ⟨_, _, rfl, rfl, crosses_step (by simp [hrest]) hstep hnest hbehind⟩

theorem lexes_mark {c : Char} (hc : c ∈ [',', '.', '|']) : Lexes [.mark c] := by
  have hbreaks : ∀ c ∈ [',', '.', '|'], '\r' ∉ spaced [.mark c] := forall_mem_of_all (by decide)
  constructor
  · exact hbreaks c hc
  · intro s more hnest hrest
    have hmem : ∀ c ∈ [',', '.', '|'], c ∈ markChars := forall_mem_of_all (by decide)
    have hstep : step defaultRules .drop s = .ok ([(s.advance 1).token .punctuation [c]],
        { s.advance 1 with brackets := s.brackets }.advance 1) := by
      rw [step_mark (hmem c hc) hnest hrest]
      have hplain : ∀ c ∈ [',', '.', '|'],
          bracketOf? c = none ∧ (c == '(' || c == '[' || c == '\x7b') = false :=
        forall_mem_of_all (by decide)
      unfold punctuationStep
      simp only [(hplain c hc).1, (hplain c hc).2, Bool.false_eq_true, if_false]
      rfl
    obtain ⟨t, token, htoken, hbrackets, ht⟩ := crosses_mark hnest hrest hstep
    exact ⟨t, [token], spells_singleton htoken, hbrackets, ht⟩

/-- Lexemes between brackets. -/
theorem lexes_between {opening closing : Char} {ws : List Lexeme} (h : Lexes ws)
    (hpair : (opening = '(' ∧ closing = ')') ∨ (opening = '[' ∧ closing = ']')) :
    Lexes (.mark opening :: (ws ++ [.mark closing])) := by
  constructor
  · rcases hpair with ⟨rfl, rfl⟩ | ⟨rfl, rfl⟩ <;> simp [Lexeme.chars, h.breaks]
  · intro s more hnest hrest
    obtain ⟨middle, hmiddle⟩ := exists_spaced_append ws (closing :: ' ' :: more)
    have hrest : s.rest = ' ' :: opening :: ' ' :: middle := by
      rw [hrest, ← hmiddle]
      simp [Lexeme.chars]
    have hopening : opening ∈ markChars := by
      rcases hpair with ⟨rfl, -⟩ | ⟨rfl, -⟩ <;> decide
    have hclosing : closing ∈ markChars := by
      rcases hpair with ⟨-, rfl⟩ | ⟨-, rfl⟩ <;> decide
    have hopen : step defaultRules .drop s = .ok ([(s.advance 1).token .punctuation [opening]],
        { s.advance 1 with
          brackets := ⟨[opening], (s.advance 1).line⟩ :: s.brackets }.advance 1) := by
      rw [step_mark hopening hnest hrest]
      rcases hpair with ⟨rfl, -⟩ | ⟨rfl, -⟩ <;> rfl
    obtain ⟨t, token, htoken, hbrackets, ht⟩ := crosses_mark hnest hrest hopen
    have hinside : t.rest = spaced ws ++ ' ' :: (closing :: ' ' :: more) := by rw [ht.rest, hmiddle]
    obtain ⟨u, us, hus, hinner, hu⟩ := h.crosses ht.nesting hinside
    rw [hbrackets] at hinner
    have hclose : step defaultRules .drop u = .ok ([(u.advance 1).token .punctuation [closing]],
        { u.advance 1 with brackets := s.brackets }.advance 1) := by
      have hstack : (u.advance 1).brackets = ⟨[opening], (s.advance 1).line⟩ :: s.brackets := hinner
      rw [step_mark hclosing hu.nesting hu.rest]
      unfold punctuationStep
      rcases hpair with ⟨rfl, rfl⟩ | ⟨rfl, rfl⟩ <;> simp only [bracketOf?, hstack] <;> rfl
    obtain ⟨v, last, hlast, houter, hv⟩ := crosses_mark hu.nesting hu.rest hclose
    refine ⟨v, token :: (us ++ [last]), ?_, houter, ht.trans (hu.trans hv)⟩
    exact spells_cons_iff.2 ⟨token, us ++ [last], rfl, htoken,
      spells_append_iff.2 ⟨us, [last], rfl, hus, spells_singleton hlast⟩⟩

theorem lexes_name {text : String} (h : IsName text) : Lexes [.name text] := by
  refine lexes_of_readsAs ?_ (readsAs_name h)
  intro hmem
  exact absurd (h.1.forall_isIdentifierChar '\r' hmem) (by decide)

theorem lexes_number (n : Nat) : Lexes [.number n] := by
  refine lexes_of_readsAs ?_ (readsAs_number n)
  intro hmem
  exact absurd (Decimal.isDigit_of_mem_toDigits hmem) (by decide)

theorem lexes_string (quote : Quote) (text : String) : Lexes [.string quote text] := by
  refine lexes_of_readsAs ?_ (readsAs_string quote text)
  have hmark : quote.mark ≠ '\r' := by cases quote <;> decide
  have hescape : ∀ c, '\r' ∉ quote.escapeChar c := by
    intro c
    unfold Quote.escapeChar
    split
    · decide
    · next hc =>
      have hc : '\r' ≠ c := by
        rintro rfl
        simp at hc
      split <;> simp [hc]
  simp [Lexeme.chars, Quote.escape, hmark.symm, hescape]

theorem lexes_binary (op : BinaryOp) : Lexes [.operator op.text] :=
  lexes_of_readsAs (by cases op <;> decide) (readsAs_binary op)

theorem unifyBreaks_eq_self {cs : List Char} (h : '\r' ∉ cs) : unifyBreaks cs = cs := by
  induction cs with
  | nil => rfl
  | cons c cs ih =>
    rw [List.mem_cons, not_or] at h
    rw [unifyBreaks, ih h.2]
    · rintro cs' rfl
      exact absurd rfl h.1
    · rintro rfl
      exact absurd rfl h.1

theorem length_le_spaced (ws : List Lexeme) : ws.length ≤ (spaced ws).length := by
  induction ws with
  | nil => simp
  | cons w ws ih =>
    rw [spaced_cons, List.cons_append, List.length_cons, List.length_cons, List.length_append]
    omega

/-- The source text of a print tag with lexemes inside. -/
def printTag (ws : List Lexeme) : String :=
  String.ofList ('\x7b' :: '\x7b' :: (spaced ws ++ [' ', '\x7d', '\x7d']))

/-- A print tag is read as its lexemes between the tokens of its delimiters. -/
theorem Lexes.tokenize {ws : List Lexeme} (h : Lexes ws) (name : String) :
    ∃ lexer opening ts closing eof, ofOptions {} .drop = .ok lexer ∧ Spells ws ts ∧
      closing.kind = .varEnd ∧ eof.kind = .eof ∧
      lexer.tokenize ⟨name, printTag ws⟩ =
        .ok (.ofTokens (opening :: (ts ++ [closing, eof])) name) := by
  obtain ⟨middle, hmiddle⟩ := exists_spaced_append ws ['\x7d', '\x7d']
  have hcode : (printTag ws).toList = '\x7b' :: '\x7b' :: ' ' :: middle := by
    rw [printTag, String.toList_ofList, hmiddle]
  have hbreaks : '\r' ∉ (printTag ws).toList := by
    rw [printTag, String.toList_ofList]
    simp [h.breaks]
  have hlength : ws.length + 5 ≤ (printTag ws).toList.length := by
    rw [printTag, String.toList_ofList]
    simp only [List.length_cons, List.length_append, List.length_nil]
    have := length_le_spaced ws
    omega
  obtain ⟨opening, s, hopen, hnest, hbrackets, hrest⟩ :
      ∃ opening s, step defaultRules .drop (.start defaultRules (printTag ws).toList) =
        .ok ([opening], s) ∧ s.nesting = [.print] ∧ s.brackets = [] ∧ s.rest = ' ' :: middle := by
    rw [hcode]
    exact ⟨_, _, rfl, rfl, rfl, rfl⟩
  obtain ⟨t, ts, hts, htbrackets, ht⟩ := h.crosses hnest (by rw [hrest, hmiddle])
  obtain ⟨closing, u, hclose, hkind, hunest, hubrackets, hurest⟩ :=
    step_printEnd .drop ht.nesting (htbrackets.trans hbrackets) ht.rest
  obtain ⟨eof, hfinish, heof⟩ : ∃ eof, finish u = .ok eof ∧ eof.kind = .eof := by
    unfold finish
    rw [hubrackets, hunest]
    exact ⟨u.token .eof [], rfl, rfl⟩
  have hrun : run defaultRules .drop ((printTag ws).toList.length + 1)
      (.start defaultRules (printTag ws).toList) = .ok (opening :: (ts ++ [closing]), u) := by
    have hts := hts.length_eq
    obtain ⟨steps, hsteps⟩ : ∃ steps, (printTag ws).toList.length = steps + 1 + ts.length :=
      ⟨(printTag ws).toList.length - ts.length - 1, by omega⟩
    have hstart : (State.start defaultRules (printTag ws).toList).rest ≠ [] := by
      rw [hcode]
      exact List.cons_ne_nil _ _
    rw [run_succ (isDone_eq_false hstart) hopen, hsteps, ht.run,
      run_succ (isDone_eq_false (by rw [ht.rest]; simp)) hclose,
      run_done (by rw [isDone, hurest]; rfl), map_after_after, map_after_after]
    simp [Except.map, Piece.after]
  refine ⟨⟨defaultRules, .drop⟩, opening, ts, closing, eof,
    ofOptions_eq_ok.2 ⟨defaultRules, ofOptions?_default, rfl⟩, hts, hkind, heof, ?_⟩
  rw [tokenize_eq_bind, unifyBreaks_eq_self hbreaks, tokens_eq_bind, hrun, ok_bind, hfinish]
  simp [Except.map]

end TemplateEngine.Lexer
