import TemplateEngine.Proofs.Lexer.LongestOperator
import TemplateEngine.Proofs.Lexer.Strings
import TemplateEngine.Proofs.Lexer.Verbatim

/-!
Where tokens stand. Main statement: under the default rules every token of a template carries the
line on which its own text begins, but for the end of a tag, of an interpolation and of a kept
comment. Such an end carries the line up to which the template was read in front of it, which is
another one exactly if there is a line break in between.
-/

namespace TemplateEngine

/-- The kinds of the delimiters that end a tag, an interpolation or a kept comment. -/
def TokenKind.isClosing : TokenKind → Bool
  | .blockEnd | .varEnd | .interpolationEnd => true
  | _ => false

namespace Lexer

structure Span where
  read : Nat
  place : Nat
  deriving Repr, DecidableEq

def Span.between (code : List Char) (span : Span) : List Char :=
  (code.drop span.read).take (span.place - span.read)

def lineAt (code : List Char) (place : Nat) : Nat :=
  1 + (code.take place).count '\n'

def Begins (token : Token) (cs : List Char) : Prop :=
  match token.kind with
  | .eof => cs = []
  | .operator => ∃ words chars, token.value.toList = [' '].intercalate words ∧
      Writes words chars ∧ chars <+: cs
  | .string => ∃ raw, token.value.toList = unescape raw ∧
      (raw ≠ [] ∧ raw <+: cs ∨ ∃ quote ∈ ['"', '\''], quote :: raw ++ [quote] <+: cs)
  | .blockEnd | .varEnd | .interpolationEnd =>
      ∃ mark, Trim.mark mark ++ token.value.toList <+: cs
  | _ => token.value.toList <+: cs

/-- Whether a token stands at a place of a text. The name of a kept comment is not written at all:
it counts from the end of the opening delimiter. -/
def StandsAt (code : List Char) (token : Token) (place : Nat) : Prop :=
  Begins token (code.drop place) ∨
    token.spelling = (.name, "comment") ∧
      ∃ mark, ['\x7b', '#'] ++ Trim.mark mark <:+ code.take place

namespace State

def blanks (s : State) : Nat :=
  (s.rest.takeWhile Text.isBlank).length

/-- Where what follows the text in front of a tag begins: the text of a verbatim block behind the
tag that opens it, and else the tag itself. -/
def tagPlace (r : Rules) (s : State) (start : TagStart) : Nat :=
  match start.kind, (r.wordTag "verbatim").length?
      (s.rest.drop (start.offset - s.offset + start.length)) with
  | .block, some n => start.offset + start.length + n
  | _, _ => start.offset

/-- Where the opening delimiter of a comment begins, whose body is in front. There may be a mark
behind the delimiter. -/
def commentPlace (r : Rules) (s : State) : Nat :=
  s.offset - (r.comment.opening.length +
    if s.previous = r.comment.opening.getLast? then 0 else 1)

def commentBody (r : Rules) (s : State) : List Char :=
  ((realSearch r s.rest).map Prod.fst).getD []

/-- The spans of the tokens that a step gives. Inside of tags white space is passed over. -/
def spans (r : Rules) (s : State) (tokens : List Token) : List Span :=
  match s.nesting with
  | [] =>
    match s.tagsAhead with
    | [] => tokens.map fun _ => ⟨s.offset, s.offset⟩
    | start :: _ =>
      let texts := s.textTokens (trimBefore start.trim (s.rest.take (start.offset - s.offset)))
      (texts.map fun _ => ⟨s.offset, s.offset⟩) ++
        (tokens.drop texts.length).map fun _ => ⟨s.offset, s.tagPlace r start⟩
  | .string :: _ => tokens.map fun _ => ⟨s.offset, s.offset⟩
  | .comment :: _ => tokens.map fun token =>
      ⟨s.offset, match token.kind with
        | .blockStart => s.commentPlace r
        | .blockEnd => s.offset + (s.commentBody r).length
        | _ => s.offset⟩
  | _ => tokens.map fun _ => ⟨s.offset, s.offset + s.blanks⟩

end State

/-- The spans of the tokens that a run gives, step by step. -/
def runSpans (r : Rules) (comments : Comments) : Nat → State → List Span
  | 0, _ => []
  | steps + 1, s =>
    if isDone comments s then []
    else
      match step r comments s with
      | .error _ => []
      | .ok (tokens, t) => s.spans r tokens ++ runSpans r comments steps t

/-- The spans of the tokens of a text. The last token stands at its end. -/
def spans (lexer : Lexer) (code : List Char) : List Span :=
  runSpans lexer.rules lexer.comments (code.length + 1) (.start lexer.rules code) ++
    [⟨code.length, code.length⟩]

section

variable {code : List Char} {s u : State} {token : Token} {span : Span}

theorem lineAt_add (code : List Char) (place k : Nat) :
    lineAt code (place + k) = lineAt code place + ((code.drop place).take k).count '\n' := by
  rw [lineAt, lineAt, List.take_add, List.count_append, Nat.add_assoc]

theorem StandsIn.lineAt_offset (h : StandsIn code s) : lineAt code s.offset = s.line := by
  obtain ⟨passed, hcode, hoffset, -, hline⟩ := h
  rw [lineAt, hcode, hoffset, List.take_left, hline]

theorem StandsIn.drop_offset (h : StandsIn code s) : code.drop s.offset = s.rest := by
  obtain ⟨passed, hcode, hoffset, -⟩ := h
  rw [hcode, hoffset, List.drop_left]

theorem StandsIn.drop_add (h : StandsIn code s) (k : Nat) :
    code.drop (s.offset + k) = s.rest.drop k := by
  rw [← List.drop_drop, h.drop_offset]

/-- A token stands where its span says, and carries the line of the place or, at the end of
something, the line up to which the template was read in front of it. -/
structure Spanned (code : List Char) (token : Token) (span : Span) : Prop where
  stands : StandsAt code token span.place
  line : token.line = lineAt code (if token.kind.isClosing then span.read else span.place)
  behind : token.kind.isClosing = true → span.read ≤ span.place

theorem Spanned.line_iff (h : Spanned code token span) :
    token.line = lineAt code span.place ↔
      (token.kind.isClosing = true → '\n' ∉ span.between code) := by
  rw [h.line]
  cases hclosing : token.kind.isClosing with
  | false => simp
  | true =>
    have hplace : span.place = span.read + (span.place - span.read) := by
      have := h.behind hclosing
      omega
    rw [if_pos rfl, hplace, lineAt_add, ← List.count_eq_zero, Span.between]
    simp

/-- A token that is read where the lexer stands. -/
theorem StandsIn.spanned (h : StandsIn code u) {kind : TokenKind} {value : List Char}
    (hkind : kind.isClosing = false) (hbegins : Begins (u.token kind value) u.rest) (read : Nat) :
    Spanned code (u.token kind value) ⟨read, u.offset⟩ where
  stands := .inl (by rwa [h.drop_offset])
  line := by
    show u.line = _
    rw [← h.lineAt_offset]
    simp [State.token, hkind]
  behind := by simp [State.token, hkind]

/-- The end of something is read together with what stands in front of it. -/
theorem StandsIn.spanned_closing (h : StandsIn code s) {kind : TokenKind} {closing : List Char}
    (hkind : kind.isClosing = true) {k : Nat} {mark : Option Trim}
    (hclosing : Trim.mark mark ++ closing <+: s.rest.drop k) :
    Spanned code (s.token kind closing) ⟨s.offset, s.offset + k⟩ where
  stands := by
    refine .inl ?_
    rw [h.drop_add]
    cases kind <;> first
      | exact absurd hkind (by decide)
      | exact ⟨mark, by simpa [State.token] using hclosing⟩
  line := by
    show s.line = _
    rw [← h.lineAt_offset]
    simp [State.token, hkind]
  behind _ := Nat.le_add_right _ _

end

section

variable {r : Rules} {s t : State} {tokens : List Token} {cs : List Char}

/-- A step that gives at most one token, which is read where the lexer stands and is the end of
nothing. -/
def GivesWord (s : State) (tokens : List Token) : Prop :=
  tokens = [] ∨ ∃ kind value, tokens = [s.token kind value] ∧ kind.isClosing = false ∧
    Begins (s.token kind value) s.rest

/-- A token that is written as its value. -/
theorem GivesWord.plain {kind : TokenKind} {n : Nat}
    (hkind : kind ∈ [TokenKind.name, .number, .punctuation, .interpolationStart]) :
    GivesWord s [s.token kind (s.rest.take n)] := by
  have hprefix : (String.ofList (s.rest.take n)).toList <+: s.rest := by
    rw [String.toList_ofList]
    exact List.take_prefix _ _
  refine .inr ⟨_, _, rfl, ?_, ?_⟩
  · revert hkind
    cases kind <;> decide
  · simp only [List.mem_cons, List.not_mem_nil, or_false] at hkind
    rcases hkind with rfl | rfl | rfl | rfl <;> exact hprefix

theorem prefix_of_literalBody? {quote : Char} {refused : Char → Bool} {body : List Char}
    (h : literalBody? quote refused cs = some body) : body ++ [quote] <+: cs := by
  fun_induction literalBody? quote refused cs generalizing body with
  | case1 => simp at h
  | case2 c hc => simp_all
  | case3 => simp at h
  | case4 c d cs hc => simp_all
  | case5 c d cs _ _ ih =>
    obtain ⟨rest, hrest, rfl⟩ := Option.map_eq_some_iff.1 h
    simpa using ih hrest
  | case6 => simp at h
  | case7 c d cs _ _ _ ih =>
    obtain ⟨rest, hrest, rfl⟩ := Option.map_eq_some_iff.1 h
    simpa using ih hrest

theorem prefix_of_stringLiteral? {body : List Char} (h : stringLiteral? cs = some body) :
    ∃ quote ∈ ['"', '\''], quote :: body ++ [quote] <+: cs := by
  unfold stringLiteral? at h
  split at h
  · exact ⟨'"', by simp, by simpa using prefix_of_literalBody? h⟩
  · exact ⟨'\'', by simp, by simpa using prefix_of_literalBody? h⟩
  · simp at h

theorem writes_of_operator? {previous : Option Char} {operator : Operator} {n : Nat}
    (h : r.operator? previous cs = some (operator, n)) :
    ∃ chars, Writes operator.words chars ∧ chars <+: cs := by
  obtain ⟨other, -, hother⟩ := List.exists_of_findSome?_eq_some h
  obtain ⟨m, hm, heq⟩ := Option.map_eq_some_iff.1 hother
  obtain ⟨rfl, rfl⟩ := Prod.mk.inj heq
  unfold Operator.length? at hm
  split at hm
  · simp at hm
  · next hwords =>
    obtain ⟨chars, behind, rfl, -, hwrites⟩ := writes_of_wordsLength? other.words_ne_nil hwords
    exact ⟨chars, hwrites, List.prefix_append _ _⟩

theorem punctuationStep_eq_ok {c : Char} (h : punctuationStep c s = .ok (tokens, t)) :
    tokens = [s.token .punctuation [c]] := by
  unfold punctuationStep at h
  simp only at h
  repeat' split at h
  all_goals first
    | exact (Prod.mk.inj (Except.ok.inj h)).1.symm
    | simp at h

theorem wordStep_givesWord {c : Char} (hrest : s.rest = c :: cs)
    (h : wordStep r c s = .ok (tokens, t)) : GivesWord s tokens := by
  unfold wordStep at h
  split at h
  · next operator n hoperator =>
    obtain ⟨rfl, -⟩ := Prod.mk.inj (Except.ok.inj h)
    obtain ⟨chars, hwrites, hprefix⟩ := writes_of_operator? hoperator
    exact .inr ⟨_, _, rfl, rfl, _, chars, String.toList_ofList, hwrites, hprefix⟩
  simp only at h
  split at h
  · obtain ⟨rfl, -⟩ := Prod.mk.inj (Except.ok.inj h)
    exact .plain (by simp)
  split at h
  · obtain ⟨rfl, -⟩ := Prod.mk.inj (Except.ok.inj h)
    exact .plain (by simp)
  split at h
  · obtain rfl := punctuationStep_eq_ok h
    have htake : s.rest.take 1 = [c] := by rw [hrest]; rfl
    rw [← htake]
    exact .plain (by simp)
  split at h
  · next body hbody =>
    obtain ⟨rfl, -⟩ := Prod.mk.inj (Except.ok.inj h)
    obtain ⟨quote, hquote, hprefix⟩ := prefix_of_stringLiteral? hbody
    exact .inr ⟨_, _, rfl, rfl, body, String.toList_ofList, .inr ⟨quote, hquote, hprefix⟩⟩
  split at h
  · obtain ⟨rfl, -⟩ := Prod.mk.inj (Except.ok.inj h)
    exact .inl rfl
  · simp at h

theorem expressionStep_givesWord (h : expressionStep r s = .ok (tokens, t)) :
    GivesWord (s.advance s.blanks) tokens := by
  unfold expressionStep at h
  simp only at h
  split at h
  · split at h
    · obtain ⟨rfl, -⟩ := Prod.mk.inj (Except.ok.inj h)
      exact .inl rfl
    · simp at h
  · next c cs hrest => exact wordStep_givesWord hrest h

theorem stringStep_givesWord (h : stringStep r s = .ok (tokens, t)) : GivesWord s tokens := by
  cases stringStep_cases h with
  | interpolation hopening =>
    rw [List.prefix_iff_eq_take.1 hopening]
    exact .plain (by simp)
  | plain hne =>
    refine .inr ⟨_, _, rfl, rfl, _, String.toList_ofList, .inl ⟨fun hnil => ?_, ?_⟩⟩
    · rw [List.take_eq_nil_iff] at hnil
      rcases hnil with hzero | hnil
      · exact hne hzero
      · exact hne (by rw [hnil]; rfl)
    · exact List.take_prefix _ _
  | close => exact .inl rfl

/-- Behind white space that is passed over, the end of something is found at its own text. -/
theorem exists_mem_drop_blanks {pattern : Pattern} {n : Nat}
    (hpattern : ∀ cs, ∀ k ∈ pattern cs, ∃ c more, cs = c :: more ∧ Text.isBlank c = false)
    (h : (Pattern.andThen (.run Text.isBlank) pattern).length? s.rest = some n) :
    ∃ k, k ∈ pattern (s.rest.drop s.blanks) := by
  obtain ⟨m, hm, k, hk⟩ := Pattern.exists_of_mem_andThen (List.mem_of_head? h)
  obtain ⟨gap, hgap, hrest⟩ := Pattern.exists_gap_of_mem_run hm
  obtain ⟨c, more, hmore, hc⟩ := hpattern _ k hk
  have hblanks : s.blanks = gap.length := by
    rw [State.blanks, hrest, hmore, hgap.takeWhile hc]
  refine ⟨k, ?_⟩
  rw [hblanks]
  conv in s.rest => rw [hrest]
  rwa [List.drop_left]

theorem exists_closing_drop_blanks {d e : Char} (hd : Text.isBlank d = false) {takesBreak : Bool}
    {n : Nat} (h : (Pattern.andThen (.run Text.isBlank)
      (defaultRules.closing [d, e] takesBreak)).length? s.rest = some n) :
    ∃ mark, Trim.mark mark ++ [d, e] <+: s.rest.drop s.blanks := by
  have hpattern : ∀ cs, ∀ k ∈ defaultRules.closing [d, e] takesBreak cs,
      ∃ c more, cs = c :: more ∧ Text.isBlank c = false := by
    intro cs k hk
    obtain ⟨mark, more, rfl⟩ := exists_mark_of_mem_closing hk
    match mark with
    | none => exact ⟨d, _, rfl, hd⟩
    | some .all => exact ⟨'-', _, rfl, by decide⟩
    | some .line => exact ⟨'~', _, rfl, by decide⟩
  obtain ⟨k, hk⟩ := exists_mem_drop_blanks hpattern h
  exact exists_mark_of_mem_closing hk

end

section

variable {r : Rules} {code : List Char} {s u t : State} {tokens : List Token}

theorem GivesWord.forall₂_spanned (h : GivesWord u tokens) (hu : StandsIn code u) (read : Nat) :
    List.Forall₂ (Spanned code) tokens (tokens.map fun _ => ⟨read, u.offset⟩) := by
  rcases h with rfl | ⟨kind, value, rfl, hkind, hbegins⟩
  · exact .nil
  · exact .cons (hu.spanned hkind hbegins read) .nil

theorem expressionStep_spanned (hs : StandsIn code s) (h : expressionStep r s = .ok (tokens, t)) :
    List.Forall₂ (Spanned code) tokens
      (tokens.map fun _ => ⟨s.offset, s.offset + s.blanks⟩) := by
  have hoffset : (s.advance s.blanks).offset = s.offset + s.blanks :=
    State.offset_advance (length_takeWhile_le _ _)
  rw [← hoffset]
  exact (expressionStep_givesWord h).forall₂_spanned (hs.advance s.blanks) s.offset

theorem closeOrExpression_spanned (hs : StandsIn code s) {close : Pattern} {kind : TokenKind}
    (hkind : kind.isClosing = true) {closing : List Char}
    (hclose : ∀ n, close.length? s.rest = some n →
      ∃ mark, Trim.mark mark ++ closing <+: s.rest.drop s.blanks)
    (h : closeOrExpression r close kind closing s = .ok (tokens, t)) :
    List.Forall₂ (Spanned code) tokens
      (tokens.map fun _ => ⟨s.offset, s.offset + s.blanks⟩) := by
  unfold closeOrExpression at h
  split at h
  · next n hn =>
    obtain ⟨rfl, -⟩ := Prod.mk.inj (Except.ok.inj h)
    obtain ⟨-, hn⟩ := Option.ite_none_right_eq_some.1 hn
    obtain ⟨mark, hclosing⟩ := hclose n hn
    exact .cons (hs.spanned_closing hkind hclosing) .nil
  · exact expressionStep_spanned hs h

theorem interpolationStep_spanned (hs : StandsIn code s)
    (h : interpolationStep defaultRules s = .ok (tokens, t)) :
    List.Forall₂ (Spanned code) tokens
      (tokens.map fun _ => ⟨s.offset, s.offset + s.blanks⟩) := by
  unfold interpolationStep at h
  split at h
  · exact expressionStep_spanned hs h
  split at h
  · next n hn =>
    obtain ⟨rfl, -⟩ := Prod.mk.inj (Except.ok.inj h)
    obtain ⟨-, hn⟩ := Option.ite_none_right_eq_some.1 hn
    have hliteral : ∀ cs, ∀ k ∈ Pattern.literal ['\x7d'] cs,
        ∃ c more, cs = c :: more ∧ Text.isBlank c = false :=
      fun cs k hk => ⟨'\x7d', _, Pattern.eq_append_of_mem_literal hk, by decide⟩
    obtain ⟨k, hk⟩ := exists_mem_drop_blanks hliteral hn
    have hclosing : Trim.mark none ++ ['\x7d'] <+: s.rest.drop s.blanks :=
      ⟨_, (Pattern.eq_append_of_mem_literal hk).symm⟩
    exact .cons (hs.spanned_closing rfl hclosing) .nil
  · exact expressionStep_spanned hs h

theorem partStep_spanned (hs : StandsIn code s) (hplace : InTag s.nesting)
    (h : partStep defaultRules s = .ok (tokens, t)) :
    List.Forall₂ (Spanned code) tokens (s.spans defaultRules tokens) := by
  unfold partStep at h
  unfold State.spans
  split at h
  · next hnest => simp [hnest, InTag] at hplace
  · next hnest =>
    simp only [hnest]
    exact closeOrExpression_spanned hs rfl (fun n => exists_closing_drop_blanks (by decide))
      (mapError_eq_ok.1 h)
  · next hnest =>
    simp only [hnest]
    exact closeOrExpression_spanned hs rfl (fun n => exists_closing_drop_blanks (by decide))
      (mapError_eq_ok.1 h)
  · next hnest =>
    simp only [hnest]
    exact (stringStep_givesWord (mapError_eq_ok.1 h)).forall₂_spanned hs s.offset
  · next hnest =>
    simp only [hnest]
    exact interpolationStep_spanned hs (mapError_eq_ok.1 h)
  · next hnest => simp [hnest, InTag] at hplace

end

section

variable {r : Rules} {comments : Comments} {code text before : List Char} {s u t : State}
  {tokens : List Token} {start : TagStart}

/-- What a tag start is written as: the opening delimiter of its kind and its mark. -/
def startText (r : Rules) (start : TagStart) : List Char :=
  (r.delimiters start.kind).opening ++ r.markText start.trim

theorem markText_isPrefix (r : Rules) (cs : List Char) : r.markText (r.trimMark? cs) <+: cs := by
  cases cs with
  | nil => exact List.prefix_refl _
  | cons c cs =>
    simp only [Rules.trimMark?]
    split
    · next hc => simp [Rules.markText, beq_iff_eq.1 hc]
    split
    · next hc => simp [Rules.markText, beq_iff_eq.1 hc]
    · exact List.nil_prefix

theorem opening_delimiters_kindOf {opening : List Char}
    (h : opening ∈ [r.print.opening, r.block.opening, r.comment.opening]) :
    (r.delimiters (r.kindOf opening)).opening = opening := by
  unfold Rules.kindOf
  split
  · next hcomment => exact (beq_iff_eq.1 hcomment).symm
  split
  · next hblock => exact (beq_iff_eq.1 hblock).symm
  · simp_all [Rules.delimiters]

theorem startText_isPrefix {offset : Nat} {cs : List Char}
    (h : r.tagStart? offset cs = some start) :
    startText r start <+: cs ∧ start.length = (startText r start).length := by
  obtain ⟨opening, hfind, rfl⟩ := Option.map_eq_some_iff.1 h
  have hprefix : opening <+: cs :=
    List.isPrefixOf_iff_prefix.1 (by simpa using List.find?_some hfind)
  have hopening := opening_delimiters_kindOf (List.mem_of_find?_eq_some hfind)
  obtain ⟨rest, rfl⟩ := hprefix
  simp only [startText, hopening, List.drop_left, List.length_append, and_true]
  exact (List.prefix_append_right_inj _).2 (markText_isPrefix r rest)

theorem not_mem_startText : '\n' ∉ startText defaultRules start := by
  unfold startText
  generalize start.kind = kind, start.trim = trim
  rcases trim with _ | _ | _ <;> cases kind <;> decide

theorem take_of_tagStart? (hstart : r.tagStart? start.offset
    (code.drop start.offset) = some start) :
    code.take (start.offset + start.length) = code.take start.offset ++ startText r start := by
  obtain ⟨htext, hlength⟩ := startText_isPrefix hstart
  rw [List.take_add, hlength, ← List.prefix_iff_eq_take.1 htext]

/-- The lexer behind a tag start is on its line. -/
theorem lineAt_of_tagStart? (hstart : defaultRules.tagStart? start.offset
    (code.drop start.offset) = some start) :
    lineAt code (start.offset + start.length) = lineAt code start.offset := by
  rw [lineAt, take_of_tagStart? hstart, List.count_append,
    List.count_eq_zero.2 not_mem_startText, Nat.add_zero, lineAt]

theorem StandsIn.spanned_textTokens (hu : StandsIn code u) (htext : text <+: u.rest)
    (read : Nat) :
    List.Forall₂ (Spanned code) (u.textTokens text)
      ((u.textTokens text).map fun _ => ⟨read, u.offset⟩) := by
  unfold State.textTokens
  split
  · exact .nil
  · have hbegins : Begins (u.token .text text) u.rest := by
      show (String.ofList text).toList <+: u.rest
      rwa [String.toList_ofList]
    exact .cons (hu.spanned rfl hbegins read) .nil

theorem trimBefore_isPrefix (trim : Option Trim) (cs : List Char) : trimBefore trim cs <+: cs := by
  cases trim with
  | none => exact List.prefix_refl _
  | some trim => exact Text.trimEnd_isPrefix _ _

theorem verbatimStep_spanned (hu : StandsIn code u) (read : Nat)
    (h : verbatimStep r u = .ok (tokens, t)) :
    List.Forall₂ (Spanned code) tokens (tokens.map fun _ => ⟨read, u.offset⟩) := by
  unfold verbatimStep at h
  split at h
  · simp at h
  · next body trim n hbody =>
    obtain ⟨rfl, -⟩ := Prod.mk.inj (Except.ok.inj h)
    obtain ⟨rest, hrest, -⟩ := findFirst?_eq_some hbody
    refine hu.spanned_textTokens ((trimBefore_isPrefix trim body).trans ?_) read
    rw [hrest]
    exact List.prefix_append _ _

/-- The token of an opening delimiter, behind which the lexer stands. -/
theorem StandsIn.spanned_start (hu : StandsIn code u)
    (hstart : defaultRules.tagStart? start.offset (code.drop start.offset) = some start)
    (hoffset : u.offset = start.offset + start.length) {kind : TokenKind}
    (hkind : kind = .varStart ∨ kind = .blockStart) (read : Nat) :
    Spanned code (u.token kind (defaultRules.delimiters start.kind).opening)
      ⟨read, start.offset⟩ := by
  have hopening : (String.ofList (defaultRules.delimiters start.kind).opening).toList <+:
      code.drop start.offset := by
    rw [String.toList_ofList]
    exact (List.prefix_append _ _).trans (startText_isPrefix hstart).1
  have hline : u.line = lineAt code start.offset := by
    rw [← hu.lineAt_offset, hoffset, lineAt_of_tagStart? hstart]
  rcases hkind with rfl | rfl
  · exact ⟨.inl hopening, hline, by simp [State.token, TokenKind.isClosing]⟩
  · exact ⟨.inl hopening, hline, by simp [State.token, TokenKind.isClosing]⟩

theorem tagStep_spanned {search : EndSearch} {d : DataPiece} (hu : StandsIn code u)
    (hstart : defaultRules.tagStart? start.offset (code.drop start.offset) = some start)
    (hoffset : u.offset = start.offset + start.length)
    (hrest : u.rest = s.rest.drop (start.offset - s.offset + start.length))
    (h : tagStep defaultRules search start.kind u = .ok d) :
    List.Forall₂ (Spanned code) d.piece.1
      (d.piece.1.map fun _ => ⟨s.offset, s.tagPlace defaultRules start⟩) := by
  have hspanned {kind : TokenKind} (hkind : kind = .varStart ∨ kind = .blockStart) :=
    hu.spanned_start hstart hoffset hkind s.offset
  unfold tagStep at h
  unfold State.tagPlace
  rw [← hrest]
  split at h
  · split at h <;>
    · obtain rfl := Except.ok.inj h
      exact .nil
  · next hkind =>
    obtain rfl := Except.ok.inj h
    rw [hkind] at hspanned ⊢
    exact .cons (hspanned (.inl rfl)) .nil
  · next hkind =>
    split at h
    · next n hn =>
      obtain ⟨⟨ts, v⟩, hverbatim, rfl⟩ := map_eq_ok.1 h
      have hplace : (u.advance n).offset = start.offset + start.length + n := by
        rw [State.offset_advance ((bounded_wordTag _ _).length?_le hn), hoffset]
      rw [hkind, hn]
      simp only
      rw [← hplace]
      exact verbatimStep_spanned (hu.advance n) s.offset hverbatim
    · next hn =>
      obtain rfl := Except.ok.inj h
      rw [hkind] at hspanned ⊢
      rw [hn]
      exact .cons (hspanned (.inr rfl)) .nil

/-- The next tag in a text, from the place of a lexer. -/
theorem StandsIn.tagStart? (hs : StandsIn code s) (hahead : Scanned s) {later : List TagStart}
    (htags : s.tagsAhead = start :: later) :
    s.offset ≤ start.offset ∧
      defaultRules.tagStart? start.offset (code.drop start.offset) = some start := by
  obtain ⟨passed, hcode, hoffset, -⟩ := hs
  have hnext := (head?_tagStartsFrom defaultRules passed s.rest).1 start (by
    rw [← hoffset, ← hahead, htags]
    rfl)
  rw [← hcode, ← hoffset] at hnext
  exact ⟨hnext.behind, hnext.found⟩

/-- The state behind the next tag start. -/
theorem StandsIn.offset_behind (hs : StandsIn code s) (hle : s.offset ≤ start.offset)
    (hstart : defaultRules.tagStart? start.offset (code.drop start.offset) = some start) :
    (s.advance (start.offset - s.offset + start.length)).offset =
      start.offset + start.length := by
  have hplace : code.drop start.offset = s.rest.drop (start.offset - s.offset) := by
    rw [← hs.drop_add, Nat.add_sub_cancel' hle]
  have hlength := tagStart?_le hstart
  have hpos := tagStart?_length_pos hstart
  rw [hplace, List.length_drop] at hlength
  rw [State.offset_advance (by omega)]
  omega

theorem dataStep_spanned {search : EndSearch} {d : DataPiece} (hs : StandsIn code s)
    (hnest : s.nesting = []) (hahead : Scanned s)
    (h : dataStep defaultRules search s = .ok d) :
    List.Forall₂ (Spanned code) d.piece.1 (s.spans defaultRules d.piece.1) := by
  unfold State.spans
  simp only [hnest]
  cases htags : s.tagsAhead with
  | nil =>
    rw [State.tagsAhead] at htags
    rw [dataStep, htags] at h
    obtain rfl := Except.ok.inj h
    exact hs.spanned_textTokens (List.prefix_refl _) s.offset
  | cons start later =>
    obtain ⟨hle, hstart⟩ := hs.tagStart? hahead htags
    rw [State.tagsAhead] at htags
    rw [dataStep, htags] at h
    obtain ⟨more, htag, rfl⟩ := map_eq_ok.1 h
    rw [DataPiece.piece_after]
    simp only [Piece.after, List.drop_left]
    refine List.rel_append (hs.spanned_textTokens ?_ s.offset) ?_
    · exact (trimBefore_isPrefix _ _).trans (List.take_prefix _ _)
    · have hu : StandsIn code { s.advance (start.offset - s.offset + start.length) with
          tags := later } := hs.advance _
      exact tagStep_spanned hu hstart (hs.offset_behind hle hstart) rfl htag

end

section

variable {comments : Comments} {code : List Char} {s t : State} {before tokens : List Token}

/-- Whether a lexer in a comment stands right behind its opening delimiter. -/
def BehindOpening (code : List Char) (s : State) : Prop :=
  s.nesting = [.comment] →
    ∃ front mark, code.take s.offset = front ++ (['\x7b', '#'] ++ Trim.mark mark)

/-- A comment is entered behind its opening delimiter. -/
theorem dataStep_behindOpening {search : EndSearch} {u : State} (hs : StandsIn code s)
    (hahead : Scanned s) (h : dataStep defaultRules search s = .ok (.openComment (tokens, u))) :
    BehindOpening code (u.enter .comment) := by
  intro _
  cases htags : s.tagsAhead with
  | nil =>
    rw [State.tagsAhead] at htags
    rw [dataStep, htags] at h
    simp at h
  | cons start later =>
    obtain ⟨hle, hstart⟩ := hs.tagStart? hahead htags
    rw [State.tagsAhead] at htags
    rw [dataStep, htags] at h
    obtain ⟨d, htag, hd⟩ := map_eq_ok.1 h
    cases d with
    | lexed piece => simp [DataPiece.after] at hd
    | openComment piece =>
      obtain rfl := tagStep_openComment htag
      simp only [DataPiece.after, DataPiece.openComment.injEq, Prod.mk.injEq] at hd
      obtain ⟨-, rfl⟩ := hd
      have hkind : start.kind = .comment := by
        cases hk : start.kind with
        | comment => rfl
        | print => simp [hk, tagStep] at htag
        | block =>
          rw [hk, tagStep] at htag
          split at htag
          · obtain ⟨piece, -, hpiece⟩ := map_eq_ok.1 htag
            simp at hpiece
          · simp at htag
      have hoffset := hs.offset_behind hle hstart
      have hmark : startText defaultRules start = ['\x7b', '#'] ++ Trim.mark start.trim := by
        rw [startText, hkind]
        rcases start.trim with _ | _ | _ <;> rfl
      refine ⟨code.take start.offset, start.trim, ?_⟩
      rw [← hmark, ← take_of_tagStart? hstart, ← hoffset]
      rfl

theorem behindOpening_of_step (hs : StandsIn code s) (hsound : Sound comments s)
    (hahead : s.nesting = [] → Scanned s) (hdone : isDone comments s = false)
    (h : step defaultRules comments s = .ok (tokens, t)) : BehindOpening code t := by
  intro hnest
  cases (hsound.stepped hdone h).1 with
  | turned hplace hturned =>
    have := hturned.turn.move.inTag hplace
    simp [hnest, InTag] at this
  | text _ hpiece =>
    rw [hnest] at hpiece
    cases hpiece with
    | texts _ htext => simp at htext
    | enters _ _ _ hstart => simp at hstart
  | openComment hkeep hplace _ _ _ =>
    subst hkeep
    rcases keepStep_of_text hplace h with hdata | ⟨u, hdata, rfl⟩
    · obtain ⟨hpiece, -⟩ := dataStep_lexed hplace (rest_ne_nil_of_isDone (.inl hplace) hdone)
        hsound.fits hdata
      rw [hnest] at hpiece
      cases hpiece with
      | texts _ htext => simp at htext
      | enters _ _ _ hstart => simp at hstart
    · exact dataStep_behindOpening hs (hahead hplace) hdata hnest
  | comment _ hplace => simp [State.leave, hplace] at hnest

theorem behindOpening_of_reaches
    (hs : Reaches defaultRules comments (.start defaultRules code) before s)
    (hbehind : BehindOpening code s) (h : Reaches defaultRules comments s tokens t) :
    BehindOpening code t := by
  induction h generalizing before with
  | refl => exact hbehind
  | step hdone hstep hmore ih =>
    refine ih (hs.trans (.single hdone hstep)) ?_
    exact behindOpening_of_step (standsIn_of_reaches hs) (hs.sound (sound_start _ _ _))
      (tagsAhead_of_reaches hs) hdone hstep

theorem StandsIn.commentPlace_eq (hs : StandsIn code s) {front : List Char} {mark : Option Trim}
    (hfront : code.take s.offset = front ++ (['\x7b', '#'] ++ Trim.mark mark)) :
    s.commentPlace defaultRules = front.length := by
  obtain ⟨passed, hcode, hoffset, hprevious, -⟩ := hs
  have hpassed : passed = front ++ (['\x7b', '#'] ++ Trim.mark mark) := by
    rw [← hfront, hcode, hoffset, List.take_left]
  rw [State.commentPlace, hoffset, hprevious, hpassed]
  match mark with
  | none => simp [Trim.mark, defaultRules]
  | some .all => simp [Trim.mark, defaultRules]
  | some .line => simp [Trim.mark, defaultRules]

/-- The opening delimiter of a comment has no line break. -/
theorem lineAt_front {place : Nat} {front : List Char} {mark : Option Trim}
    (hfront : code.take place = front ++ (['\x7b', '#'] ++ Trim.mark mark)) :
    lineAt code place = lineAt code front.length := by
  have hmark : '\n' ∉ ['\x7b', '#'] ++ Trim.mark mark := by
    rcases mark with _ | _ | _ <;> decide
  have hlength : front.length ≤ place := by
    have := congrArg List.length hfront
    simp only [List.length_take, List.length_append] at this
    omega
  have htake : code.take front.length = front := by
    rw [← Nat.min_eq_left hlength, ← List.take_take, hfront, List.take_left]
  rw [lineAt, lineAt, hfront, htake, List.count_append, List.count_eq_zero.2 hmark, Nat.add_zero]

theorem commentStep_spanned (hs : StandsIn code s) (hnest : s.nesting = [.comment])
    (hbehind : BehindOpening code s) (h : commentStep defaultRules s = .ok (tokens, t)) :
    List.Forall₂ (Spanned code) tokens (s.spans defaultRules tokens) := by
  obtain ⟨front, mark, hfront⟩ := hbehind hnest
  obtain ⟨body, n, hsearch, rfl, -⟩ := commentStep_ok h
  obtain ⟨rest, hrest, hclose⟩ := findFirst?_eq_some hsearch
  have hbody : s.commentBody defaultRules = body := by
    rw [State.commentBody, hsearch]
    rfl
  unfold State.spans
  simp only [hnest, commentTokens, List.map_cons, List.map_nil, hs.commentPlace_eq hfront, hbody]
  refine .cons ?opening (.cons ?name (.cons ?body (.cons ?closing .nil)))
  case opening =>
    refine ⟨.inl ?_, ?_, by simp [TokenKind.isClosing]⟩
    · have hcode : code = front ++ (['\x7b', '#'] ++ (Trim.mark mark ++ s.rest)) := by
        conv_lhs => rw [← List.take_append_drop s.offset code, hfront, hs.drop_offset]
        simp
      show (String.ofList ['\x7b', '#']).toList <+: _
      rw [String.toList_ofList, hcode, List.drop_left]
      exact List.prefix_append _ _
    · show s.line = lineAt code front.length
      rw [← hs.lineAt_offset, lineAt_front hfront]
  case name =>
    refine ⟨.inr ⟨rfl, mark, front, hfront.symm⟩, ?_, by simp [TokenKind.isClosing]⟩
    exact hs.lineAt_offset.symm
  case body =>
    have hbegins : Begins (s.token .text body) s.rest := by
      show (String.ofList body).toList <+: s.rest
      rw [String.toList_ofList, hrest]
      exact List.prefix_append _ _
    exact hs.spanned rfl hbegins s.offset
  case closing =>
    obtain ⟨ending, hending⟩ := exists_mark_of_mem_closing (List.mem_of_head? hclose)
    have hclosing : Trim.mark ending ++ ['#', '\x7d'] <+: s.rest.drop body.length := by
      rwa [hrest, List.drop_left]
    exact hs.spanned_closing rfl hclosing

end

section

variable {comments : Comments} {code : List Char} {s t : State} {before tokens : List Token}

theorem step_spanned (hs : Reaches defaultRules comments (.start defaultRules code) before s)
    (hdone : isDone comments s = false) (h : step defaultRules comments s = .ok (tokens, t)) :
    List.Forall₂ (Spanned code) tokens (s.spans defaultRules tokens) := by
  have hstands := standsIn_of_reaches hs
  have hsound := hs.sound (sound_start _ _ _)
  have hahead := tagsAhead_of_reaches hs
  have hplaced := hsound.placed
  generalize hnest : s.nesting = nesting at hplaced
  cases hplaced with
  | text =>
    cases comments with
    | drop => exact dataStep_spanned hstands hnest (hahead hnest) (dropStep_of_text hnest h)
    | keep =>
      rcases keepStep_of_text hnest h with hdata | ⟨u, hdata, rfl⟩
      · exact dataStep_spanned hstands hnest (hahead hnest) hdata
      · exact dataStep_spanned hstands hnest (hahead hnest) hdata
  | tag htag =>
    rw [← hnest] at htag
    rw [step_of_inTag htag] at h
    exact partStep_spanned hstands htag h
  | comment hkeep =>
    subst hkeep
    simp only [step, keepStep, hnest] at h
    have hbehind : BehindOpening code s :=
      behindOpening_of_reaches (.refl _) (by simp [BehindOpening, State.start]) hs
    exact commentStep_spanned hstands hnest hbehind (mapError_eq_ok.1 h)

theorem run_spanned (hs : Reaches defaultRules comments (.start defaultRules code) before s)
    {k : Nat} (h : run defaultRules comments k s = .ok (tokens, t)) :
    List.Forall₂ (Spanned code) tokens (runSpans defaultRules comments k s) := by
  induction k generalizing before s tokens with
  | zero =>
    obtain ⟨rfl, -⟩ := Prod.mk.inj (Except.ok.inj h)
    exact .nil
  | succ k ih =>
    rw [runSpans]
    cases hdone : isDone comments s with
    | true =>
      rw [run_done hdone] at h
      obtain ⟨rfl, -⟩ := Prod.mk.inj (Except.ok.inj h)
      exact .nil
    | false =>
      cases hstep : step defaultRules comments s with
      | error e =>
        rw [run_succ_error hdone hstep] at h
        simp at h
      | ok piece =>
        obtain ⟨ts, u⟩ := piece
        rw [run_succ hdone hstep] at h
        obtain ⟨⟨more, v⟩, hmore, heq⟩ := map_eq_ok.1 h
        obtain ⟨rfl, rfl⟩ := Prod.mk.inj heq
        exact List.rel_append (step_spanned hs hdone hstep)
          (ih (hs.trans (.single hdone hstep)) hmore)

theorem finish_spanned (hs : StandsIn code s) (hrest : s.rest = []) {eof : Token}
    (h : finish s = .ok eof) : eof.kind = .eof ∧ Spanned code eof ⟨code.length, code.length⟩ := by
  have hoffset : s.offset = code.length := by
    obtain ⟨passed, hcode, hoffset, -⟩ := hs
    rw [hcode, hrest, List.append_nil, hoffset]
  unfold finish at h
  split at h
  · simp at h
  · simp at h
  · obtain rfl := Except.ok.inj h
    have hbegins : Begins (s.token .eof []) s.rest := hrest
    rw [← hoffset]
    exact ⟨rfl, hs.spanned rfl hbegins s.offset⟩

theorem tokens_spanned {code : List Char}
    (h : Lexer.tokens ⟨defaultRules, comments⟩ code = .ok tokens) :
    (∃ ts eof, tokens = ts ++ [eof] ∧ eof.kind = .eof) ∧
      List.Forall₂ (Spanned code) tokens (spans ⟨defaultRules, comments⟩ code) := by
  have hsound := sound_start defaultRules comments code
  rw [tokens_eq_bind] at h
  obtain ⟨⟨ts, t⟩, hrun, hmore⟩ := bind_eq_ok.1 h
  obtain ⟨eof, hfinish, rfl⟩ := map_eq_ok.1 hmore
  obtain ⟨hreaches, hdone⟩ := reaches_of_run hsound (by simp [State.start]) hrun
  have hrest : t.rest = [] := by
    cases comments <;> simp_all [isDone]
  obtain ⟨hkind, heof⟩ := finish_spanned (standsIn_of_reaches hreaches) hrest
    (mapError_eq_ok.1 hfinish)
  exact ⟨⟨ts, eof, rfl, hkind⟩, List.rel_append (run_spanned (.refl _) hrun) (.cons heof .nil)⟩

/-- Every token of a template stands where its span says. It carries the line of that place, unless
it is the end of a tag, of an interpolation or of a kept comment and there is a line break between
the place and the one up to which the template was read before. -/
theorem line_eq_lineAt_iff {lexer : Lexer} (hlexer : ofOptions {} comments = .ok lexer)
    {source : Source} {stream : TokenStream} (h : lexer.tokenize source = .ok stream) :
    List.Forall₂
      (fun token span =>
        StandsAt (unifyBreaks source.code.toList) token span.place ∧
        (token.line = lineAt (unifyBreaks source.code.toList) span.place ↔
          (token.kind.isClosing = true → '\n' ∉ span.between (unifyBreaks source.code.toList))))
      stream.tokens (lexer.spans (unifyBreaks source.code.toList)) := by
  obtain ⟨r, hr, rfl⟩ := ofOptions_eq_ok.1 hlexer
  obtain rfl := Option.some.inj (ofOptions?_default.symm.trans hr)
  rw [tokenize_eq_bind] at h
  generalize unifyBreaks source.code.toList = code at h ⊢
  obtain ⟨tokens, htokens, rfl⟩ := map_eq_ok.1 h
  obtain ⟨⟨ts, eof, rfl, heof⟩, hspanned⟩ := tokens_spanned (mapError_eq_ok.1 htokens)
  rw [TokenStream.tokens_ofTokens, TokenStream.closeList_append_eof _ heof]
  exact hspanned.imp fun _ _ h => ⟨h.stands, h.line_iff⟩

end

/-- A tag on one line, behind a line of text. -/
theorem line_eq_lineAt_iff_print :
    ∃ lexer stream, ofOptions {} .keep = .ok lexer ∧
      lexer.tokenize ⟨"page", "a\n\x7b\x7b x \x7d\x7d"⟩ = .ok stream ∧
      List.Forall₂
        (fun token span =>
          StandsAt (unifyBreaks "a\n\x7b\x7b x \x7d\x7d".toList) token span.place ∧
          (token.line = lineAt (unifyBreaks "a\n\x7b\x7b x \x7d\x7d".toList) span.place ↔
            (token.kind.isClosing = true →
              '\n' ∉ span.between (unifyBreaks "a\n\x7b\x7b x \x7d\x7d".toList))))
        stream.tokens (lexer.spans (unifyBreaks "a\n\x7b\x7b x \x7d\x7d".toList)) := by
  obtain ⟨lexer, stream, hlexer, hstream⟩ : ∃ lexer stream, ofOptions {} .keep = .ok lexer ∧
      lexer.tokenize ⟨"page", "a\n\x7b\x7b x \x7d\x7d"⟩ = .ok stream :=
    ⟨_, _, rfl, rfl⟩
  exact ⟨lexer, stream, hlexer, hstream, line_eq_lineAt_iff hlexer hstream⟩

/-- The end of a print tag behind a line break stands on the second line and carries the first. -/
theorem not_line_eq_lineAt_break :
    ∃ lexer stream, ofOptions {} .keep = .ok lexer ∧
      lexer.tokenize ⟨"page", "\x7b\x7b x\n\x7d\x7d"⟩ = .ok stream ∧
      stream.tokens.zip (lexer.spans (unifyBreaks "\x7b\x7b x\n\x7d\x7d".toList)) =
        [(⟨.varStart, "\x7b\x7b", 1⟩, ⟨0, 0⟩), (⟨.name, "x", 1⟩, ⟨2, 3⟩),
          (⟨.varEnd, "\x7d\x7d", 1⟩, ⟨4, 5⟩), (⟨.eof, "", 2⟩, ⟨7, 7⟩)] ∧
      lineAt (unifyBreaks "\x7b\x7b x\n\x7d\x7d".toList) 5 = 2 :=
  ⟨_, _, rfl, rfl, by decide +kernel, by decide +kernel⟩

end Lexer

end TemplateEngine
