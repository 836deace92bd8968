import TemplateEngine.Proofs.Lexer.WrittenComments

/-!
Verbatim blocks. Main statement: under the default rules both lexers read a template of a verbatim
block and a text as the text of the block, trimmed as the mark of its end says, and the text behind
it, whatever tags, quotes and brackets the block holds.
-/

namespace TemplateEngine.Lexer

/-- A tag that ends a verbatim block: it may have marks, and white space around its word. -/
def IsVerbatimEnd (tag : List Char) : Prop :=
  ∃ opening gap gap' closing, IsGap gap ∧ IsGap gap' ∧
    tag = ['\x7b', '%'] ++ Trim.mark opening ++ gap ++ "endverbatim".toList ++ gap' ++
      Trim.mark closing ++ ['%', '\x7d']

/-- The plain end of a verbatim block, with a mark in front. -/
def verbatimEnd (mark : Option Trim) : List Char :=
  ['\x7b', '%'] ++ Trim.mark mark ++ " endverbatim %\x7d".toList

/-- In front of the plain end of the block, none of its ends begins within the text. -/
def NoVerbatimEnd (text : List Char) : Prop :=
  ∀ back, back <:+ text → back ≠ [] →
    ∀ tag, IsVerbatimEnd tag → ¬ tag <+: back ++ verbatimEnd none

/-- A template of a verbatim block, whose end has a mark in front, and a text behind it. -/
def verbatimChars (mark : Option Trim) (text behind : List Char) : List Char :=
  ['\x7b', '%'] ++ " verbatim %\x7d".toList ++ (text ++ (verbatimEnd mark ++ behind))

namespace Pattern

theorem exists_of_mem_andThen {first second : Pattern} {cs : List Char} {n : Nat}
    (h : n ∈ andThen first second cs) : ∃ m ∈ first cs, ∃ k, k ∈ second (cs.drop m) :=
  let ⟨m, hm, k, hk, _⟩ := mem_andThen.1 h
  ⟨m, hm, k, hk⟩

theorem eq_append_of_mem_literal {text cs : List Char} {n : Nat} (h : n ∈ literal text cs) :
    cs = text ++ cs.drop n := by
  conv_lhs => rw [← List.take_append_drop n cs, mem_literal h]

theorem exists_gap_of_mem_run {cs : List Char} {n : Nat} (h : n ∈ run Text.isBlank cs) :
    ∃ gap, IsGap gap ∧ cs = gap ++ cs.drop n := by
  refine ⟨cs.take n, fun c hc => ?_, (List.take_append_drop n cs).symm⟩
  have hfront : cs.take n <+: cs.takeWhile Text.isBlank :=
    List.prefix_of_prefix_length_le (List.take_prefix n cs) (List.takeWhile_prefix _)
      (by have := mem_run.1 h; rw [List.length_take]; omega)
  exact List.mem_takeWhile_imp (hfront.subset hc)

theorem length?_space_andThen {second : Pattern} {c : Char} {cs : List Char} {n : Nat}
    (hc : Text.isBlank c = false) (h : second.length? (c :: cs) = some n) :
    (andThen (run Text.isBlank) second).length? (' ' :: c :: cs) = some (1 + n) := by
  have hrun : run Text.isBlank (' ' :: c :: cs) = [1, 0] := by
    rw [run, List.takeWhile_cons_of_pos (by decide), List.takeWhile_cons_of_neg (by simp [hc])]
    rfl
  have hfirst : (second (c :: cs)).head? = some n := h
  rw [length?, andThen, hrun, List.flatMap_cons, List.head?_append, List.drop_succ_cons,
    List.drop_zero, List.head?_map, hfirst]
  rfl

end Pattern

open Pattern

/-- What is taken for the end of a tag begins with its closing delimiter, marked or not. -/
theorem exists_mark_of_mem_closing {closing : List Char} {takesBreak : Bool} {cs : List Char}
    {n : Nat} (h : n ∈ defaultRules.closing closing takesBreak cs) :
    ∃ mark, Trim.mark mark ++ closing <+: cs := by
  rcases List.mem_append.1 h with h | h
  · obtain ⟨m, hm, -⟩ := exists_of_mem_andThen h
    exact ⟨some .all, _, (eq_append_of_mem_literal hm).symm⟩
  rcases List.mem_append.1 h with h | h
  · obtain ⟨m, hm, -⟩ := exists_of_mem_andThen h
    exact ⟨some .line, _, (eq_append_of_mem_literal hm).symm⟩
  cases takesBreak with
  | false => exact ⟨none, _, (eq_append_of_mem_literal h).symm⟩
  | true =>
    obtain ⟨m, hm, -⟩ := exists_of_mem_andThen h
    exact ⟨none, _, (eq_append_of_mem_literal hm).symm⟩

/-- What is taken for the end of a verbatim block begins with such an end. -/
theorem exists_isVerbatimEnd {cs : List Char} {found : Option Trim × Nat}
    (h : defaultRules.verbatimEnd? cs = some found) : ∃ tag, IsVerbatimEnd tag ∧ tag <+: cs := by
  obtain ⟨opening, -, hopening⟩ := List.exists_of_findSome?_eq_some h
  obtain ⟨n, hn, -⟩ := Option.map_eq_some_iff.1 hopening
  obtain ⟨m, hm, k, hk⟩ := exists_of_mem_andThen (List.mem_of_head? hn)
  obtain ⟨i, hi, j, hj⟩ := exists_of_mem_andThen hk
  obtain ⟨a, ha, b, hb⟩ := exists_of_mem_andThen hj
  obtain ⟨c, hc, d, hd⟩ := exists_of_mem_andThen hb
  obtain ⟨gap, hgap, hi⟩ := exists_gap_of_mem_run hi
  obtain ⟨gap', hgap', hc⟩ := exists_gap_of_mem_run hc
  obtain ⟨closing, rest, hclosing⟩ := exists_mark_of_mem_closing hd
  have hmark : defaultRules.markText opening = Trim.mark opening := by
    match opening with
    | none => rfl
    | some .all => rfl
    | some .line => rfl
  refine ⟨_, ⟨opening, gap, gap', closing, hgap, hgap', rfl⟩, rest, ?_⟩
  rw [eq_append_of_mem_literal hm, hi, eq_append_of_mem_literal ha, hc, ← hclosing, hmark]
  simp only [defaultRules, List.append_assoc]

/-- Only the first character of an end is an opening brace. -/
theorem IsVerbatimEnd.exists_cons {tag : List Char} (h : IsVerbatimEnd tag) :
    ∃ cs, tag = '\x7b' :: cs ∧ '\x7b' ∉ cs := by
  obtain ⟨opening, gap, gap', closing, hgap, hgap', rfl⟩ := h
  have hblank {gap : List Char} (h : IsGap gap) : '\x7b' ∉ gap :=
    fun hmem => absurd (h _ hmem) (by decide)
  have hmark (mark : Option Trim) : '\x7b' ∉ Trim.mark mark := by
    match mark with
    | none => decide
    | some .all => decide
    | some .line => decide
  refine ⟨['%'] ++ Trim.mark opening ++ gap ++ "endverbatim".toList ++ gap' ++
    Trim.mark closing ++ ['%', '\x7d'], rfl, ?_⟩
  simp only [List.mem_append, not_or]
  exact ⟨⟨⟨⟨⟨⟨by decide, hmark _⟩, hblank hgap⟩, by decide⟩, hblank hgap'⟩, hmark _⟩, by decide⟩

/-- An end that begins in front of an opening brace stands in front of it as a whole. -/
theorem IsVerbatimEnd.prefix_of_prefix {tag back cs : List Char} (h : IsVerbatimEnd tag)
    (hback : back ≠ []) (hfront : tag <+: back ++ '\x7b' :: cs) : tag <+: back := by
  obtain ⟨more, rfl, hmore⟩ := h.exists_cons
  obtain ⟨c, back, rfl⟩ := List.exists_cons_of_ne_nil hback
  rw [List.cons_append, List.cons_prefix_cons] at hfront
  obtain ⟨rfl, hfront⟩ := hfront
  rw [List.cons_prefix_cons]
  refine ⟨rfl, ?_⟩
  rcases List.prefix_or_prefix_of_prefix hfront (List.prefix_append ..) with h | ⟨rest, rfl⟩
  · exact h
  · cases rest with
    | nil => simp
    | cons d rest =>
      rw [List.prefix_append_right_inj, List.cons_prefix_cons] at hfront
      exact absurd (by simp [hfront.1]) hmore

/-- A text without the word of the tag has no end of a verbatim block in it. -/
theorem noVerbatimEnd_of_not_infix {text : List Char} (h : ¬ "endverbatim".toList <:+: text) :
    NoVerbatimEnd text := by
  intro back hback hne tag htag hfront
  have hinfix : tag <:+: text := (htag.prefix_of_prefix hne hfront).isInfix.trans hback.isInfix
  obtain ⟨opening, gap, gap', closing, -, -, rfl⟩ := htag
  refine h (List.IsInfix.trans ?_ hinfix)
  exact ⟨['\x7b', '%'] ++ Trim.mark opening ++ gap, gap' ++ Trim.mark closing ++ ['%', '\x7d'],
    by simp only [List.append_assoc]⟩

/-- A tag of one word with a space on both sides of it, behind its opening delimiter. -/
theorem wordTag_length? {word : String} {c : Char} {cs : List Char} (hword : word.toList = c :: cs)
    (hc : Text.isBlank c = false) (behind : List Char) :
    (defaultRules.wordTag word).length? (' ' :: (word.toList ++ ' ' :: '%' :: '\x7d' :: behind)) =
      some (1 + (word.toList.length + 3)) := by
  have hclose : (andThen (.run Text.isBlank) (defaultRules.closing ['%', '\x7d'] false)).length?
      (' ' :: '%' :: '\x7d' :: behind) = some 3 :=
    length?_space_andThen (c := '%') (n := 2) (by decide) rfl
  have hinside : (andThen (literal (c :: cs))
      (andThen (.run Text.isBlank) (defaultRules.closing ['%', '\x7d'] false))).length?
        (c :: cs ++ ' ' :: '%' :: '\x7d' :: behind) = some ((c :: cs).length + 3) := by
    rw [length?_literal_andThen, if_pos (List.isPrefixOf_iff_prefix.2 (List.prefix_append _ _)),
      List.drop_left, hclose]
    rfl
  unfold Rules.wordTag
  rw [hword]
  exact length?_space_andThen hc hinside

theorem verbatimEnd?_verbatimEnd (mark : Option Trim) (behind : List Char) :
    defaultRules.verbatimEnd? (verbatimEnd mark ++ behind) =
      some (mark, (verbatimEnd mark).length) := by
  have hword : "endverbatim".toList = 'e' :: "ndverbatim".toList := by decide +kernel
  have hend : " endverbatim %\x7d".toList =
      ' ' :: ("endverbatim".toList ++ [' ', '%', '\x7d']) := by
    decide +kernel
  have htag := wordTag_length? hword (by decide) behind
  have hchars : verbatimEnd mark ++ behind = '\x7b' :: '%' :: (Trim.mark mark ++
      ' ' :: ("endverbatim".toList ++ ' ' :: '%' :: '\x7d' :: behind)) := by
    rw [verbatimEnd, hend]
    simp
  have hlength : (verbatimEnd mark).length =
      2 + (Trim.mark mark).length + (1 + ("endverbatim".toList.length + 3)) := by
    rw [verbatimEnd, hend]
    simp only [List.length_append, List.length_cons, List.length_nil]
    omega
  rw [hchars, hlength, Rules.verbatimEnd?]
  generalize "endverbatim".toList ++ ' ' :: '%' :: '\x7d' :: behind = rest at htag ⊢
  generalize 1 + ("endverbatim".toList.length + 3) = n at htag ⊢
  generalize defaultRules.wordTag "endverbatim" = pattern at htag ⊢
  simp only [List.findSome?_cons, length?_literal_andThen]
  match mark with
  | none => simp [defaultRules, Rules.markText, Trim.mark, List.isPrefixOf, htag]
  | some .all => simp [defaultRules, Rules.markText, Trim.mark, List.isPrefixOf, htag]
  | some .line => simp [defaultRules, Rules.markText, Trim.mark, List.isPrefixOf, htag]

/-- The search for the end of a block finds its text. -/
theorem findFirst?_verbatimEnd {text : List Char} (h : NoVerbatimEnd text) (mark : Option Trim)
    (behind : List Char) :
    findFirst? defaultRules.verbatimEnd? (text ++ (verbatimEnd mark ++ behind)) =
      some (text, mark, (verbatimEnd mark).length) := by
  apply findFirst?_append (verbatimEnd?_verbatimEnd mark behind)
  intro front back htext hback
  rw [Option.eq_none_iff_forall_ne_some]
  intro found hfound
  obtain ⟨tag, htag, hfront⟩ := exists_isVerbatimEnd hfound
  refine h back ⟨front, htext.symm⟩ hback tag htag ?_
  exact (htag.prefix_of_prefix hback hfront).trans (List.prefix_append _ _)

section

variable {comments : Comments} (mark : Option Trim) {text : List Char}

/-- Behind the opening delimiter of a verbatim block its end is found, and the text in front of it
is trimmed. -/
theorem exists_tagStep_verbatim (h : NoVerbatimEnd text) (behind : List Char) (search : EndSearch)
    {s : State}
    (hrest : s.rest = " verbatim %\x7d".toList ++ (text ++ (verbatimEnd mark ++ behind))) :
    ∃ ts t, tagStep defaultRules search .block s = .ok (.lexed (ts, t)) ∧ t.rest = behind ∧
      t.nesting = s.nesting ∧ t.brackets = s.brackets ∧
      ts.map Token.spelling = textSpelling (trimBack mark text) := by
  have hword : "verbatim".toList = 'v' :: "erbatim".toList := by decide +kernel
  have hopening : " verbatim %\x7d".toList = ' ' :: ("verbatim".toList ++ [' ', '%', '\x7d']) := by
    decide +kernel
  have hlength : " verbatim %\x7d".toList.length = 1 + ("verbatim".toList.length + 3) := by
    decide +kernel
  have hopened : (defaultRules.wordTag "verbatim").length? s.rest =
      some " verbatim %\x7d".toList.length := by
    rw [hrest, hlength, hopening]
    simpa using wordTag_length? hword (by decide) (text ++ (verbatimEnd mark ++ behind))
  have hinside : (s.advance " verbatim %\x7d".toList.length).rest =
      text ++ (verbatimEnd mark ++ behind) := by
    rw [State.rest_advance, hrest, List.drop_left]
  unfold tagStep
  simp only [hopened]
  unfold verbatimStep
  rw [hinside, findFirst?_verbatimEnd h mark behind]
  refine ⟨_, _, rfl, ?_, rfl, rfl, ?_⟩
  · rw [State.rest_advance, hinside, ← List.drop_drop, List.drop_left, List.drop_left]
  · rw [map_spelling_textTokens, trimBefore_eq_trimBack]

/-- The first step leads over a verbatim block at the front of a template. -/
theorem exists_step_verbatim (h : NoVerbatimEnd text) (behind : List Char) :
    ∃ ts t, step defaultRules comments (.start defaultRules (verbatimChars mark text behind)) =
        .ok (ts, t) ∧ t.rest = behind ∧ t.nesting = [] ∧ t.brackets = [] ∧
      ts.map Token.spelling = textSpelling (trimBack mark text) := by
  have hspace : " verbatim %\x7d".toList = ' ' :: "verbatim %\x7d".toList := by decide +kernel
  have hstart : defaultRules.tagStart? 0 (verbatimChars mark text behind) =
      some ⟨0, 2, .block, none⟩ := by
    rw [verbatimChars, hspace]
    rfl
  obtain ⟨later, hlater⟩ : ∃ later, defaultRules.tagStarts (verbatimChars mark text behind) =
      ⟨0, 2, .block, none⟩ :: later := by
    have hcons : verbatimChars mark text behind =
        '\x7b' :: ('%' :: " verbatim %\x7d".toList ++ (text ++ (verbatimEnd mark ++ behind))) :=
      rfl
    rw [Rules.tagStarts, hcons, Rules.tagStartsFrom, ← hcons, hstart]
    exact ⟨_, rfl⟩
  have hdata (search : EndSearch) : ∃ ts t,
      dataStep defaultRules search (.start defaultRules (verbatimChars mark text behind)) =
        .ok (.lexed (ts, t)) ∧ t.rest = behind ∧ t.nesting = [] ∧ t.brackets = [] ∧
      ts.map Token.spelling = textSpelling (trimBack mark text) := by
    obtain ⟨ts, t, hstep, ht⟩ := exists_tagStep_verbatim mark h behind search
      (s := { (State.start defaultRules (verbatimChars mark text behind)).advance 2 with
        tags := later }) rfl
    refine ⟨ts, t, ?_, ht⟩
    have htags : (State.start defaultRules (verbatimChars mark text behind)).tags =
        ⟨0, 2, .block, none⟩ :: later := hlater
    unfold dataStep
    rw [htags, List.dropWhile_cons_of_neg (by simp [State.start])]
    exact congrArg (Except.map _) hstep
  cases comments with
  | drop =>
    obtain ⟨ts, t, hstep, ht⟩ := hdata (realSearch defaultRules)
    refine ⟨ts, t, ?_, ht⟩
    simp only [step, dropStep, State.start] at hstep ⊢
    rw [hstep]
  | keep =>
    obtain ⟨ts, t, hstep, ht⟩ := hdata armedSearch
    refine ⟨ts, t, ?_, ht⟩
    simp only [step, keepStep, State.start] at hstep ⊢
    rw [hstep]

/-- A template of a verbatim block and a text behind it is read into the two texts, the first one
trimmed in front of the end of the block. -/
theorem tokenize_verbatim {lexer : Lexer} (hlexer : ofOptions {} comments = .ok lexer)
    (h : NoVerbatimEnd text) {behind : List Char} (hbehind : NoOpening behind)
    (hbreaks : '\r' ∉ text ++ behind) (name : String) :
    ∃ ts eof, lexer.tokenize ⟨name, String.ofList (verbatimChars mark text behind)⟩ =
        .ok (.ofTokens (ts ++ [eof]) name) ∧
      ts.map Token.spelling = textSpelling (trimBack mark text) ++ textSpelling behind ∧
      eof.spelling = (.eof, "") := by
  obtain ⟨r, hr, rfl⟩ := ofOptions_eq_ok.1 hlexer
  obtain rfl := Option.some.inj (ofOptions?_default.symm.trans hr)
  obtain ⟨ts, t, hstep, hrest, hnest, hbrackets, hts⟩ := exists_step_verbatim mark h behind
  have hblock : Reaches defaultRules comments (.start defaultRules _) ts t :=
    .single (isDone_eq_false (by simp [State.start, verbatimChars, verbatimEnd])) hstep
  obtain ⟨us, u, hreaches, hdone, hunest, hubrackets, hus⟩ :=
    reaches_text hbehind hrest hnest (tagsAhead_of_reaches hblock hnest)
  have hfinish : finish u = .ok (u.token .eof []) := by
    unfold finish
    rw [hubrackets, hbrackets, hunest]
  have htokens : Lexer.tokens ⟨defaultRules, comments⟩ (verbatimChars mark text behind) = .ok _ :=
    tokens_eq_ok.2 ⟨ts ++ us, u, _, hblock.trans hreaches, hdone, hfinish, rfl⟩
  have hunified : '\r' ∉ verbatimChars mark text behind := by
    have hmark : '\r' ∉ verbatimEnd mark := by
      rcases mark with _ | _ | _ <;> decide +kernel
    rw [List.mem_append, not_or] at hbreaks
    simp only [verbatimChars, List.mem_append, not_or]
    exact ⟨⟨by decide, by decide +kernel⟩, hbreaks.1, hmark, hbreaks.2⟩
  refine ⟨ts ++ us, u.token .eof [], ?_, ?_, rfl⟩
  · rw [tokenize_eq_bind, String.toList_ofList, unifyBreaks_eq_self hunified, htokens]
    rfl
  · rw [List.map_append, hts, hus]

end

end TemplateEngine.Lexer
