import TemplateEngine.Proofs.Lexer.Concatenation
import TemplateEngine.Proofs.Lexer.Gaps
import TemplateEngine.Proofs.Lexer.Places
import TemplateEngine.Proofs.Lexer.Strings

/-!
String literals as texts of their own. Main statement: under the default rules, a text that is read
as one literal where nothing stands behind it is read as the same literal in any print tag, behind
any white space and whatever stands behind it.
-/

namespace TemplateEngine.Lexer

variable {comments : Comments} {s t u v : State} {tokens more : List Token}
  {outer : List Nesting} {behind cs : List Char} {k : Nat}

theorem mem_of_interpolationEnd {n : Nat}
    (h : defaultRules.interpolationEnd.length? cs = some n) : '\x7d' ∈ cs := by
  obtain ⟨m, -, j, hj, -⟩ := Pattern.mem_andThen.1 (List.mem_of_head? h)
  have htake : (cs.drop m).take j = ['\x7d'] := Pattern.mem_literal hj
  exact List.mem_of_mem_drop (List.mem_of_mem_take (htake ▸ List.mem_singleton_self _))

theorem InTag.length_pos {nesting : List Nesting} (h : InTag nesting) : 0 < nesting.length :=
  List.length_pos_iff.2 h.ne_nil

/-- Around a tag there is nothing. -/
theorem InTag.below_eq_nil {part : Nesting} {below : List Nesting} (h : InTag (part :: below))
    (hpart : part = .block ∨ part = .print) : below = [] := by
  cases below with
  | nil => rfl
  | cons => rcases hpart with rfl | rfl <;> exact h.elim

/-- A step that leaves a string or an interpolation reads its end. -/
theorem exists_stop_of_step (hin : InTag s.nesting) (hdone : isDone comments s = false)
    (hstep : step defaultRules comments s = .ok (tokens, t)) (hin' : InTag t.nesting)
    (hleft : t.nesting.length < s.nesting.length) : ∃ stop ∈ stopChars, stop ∈ s.rest := by
  have hs := rest_ne_nil_of_isDone (.inr hin) hdone
  have hpos := hin'.length_pos
  rw [step_of_inTag hin] at hstep
  unfold partStep at hstep
  split at hstep
  · cases hstep
  · next below hnest =>
    obtain rfl := InTag.below_eq_nil (hnest ▸ hin) (.inl rfl)
    rw [hnest, List.length_singleton] at hleft
    omega
  · next below hnest =>
    obtain rfl := InTag.below_eq_nil (hnest ▸ hin) (.inr rfl)
    rw [hnest, List.length_singleton] at hleft
    omega
  · cases stringStep_cases (mapError_eq_ok.1 hstep) with
    | close hquote => exact ⟨'"', by decide, List.mem_of_head? hquote⟩
    | interpolation =>
      simp only [State.openInterpolation, State.enter, State.nesting_advance, State.openBracket,
        List.length_cons] at hleft
      omega
    | plain =>
      rw [State.nesting_advance] at hleft
      omega
  · next below hnest =>
    have hword : expressionStep defaultRules s ≠ .ok (tokens, t) := by
      intro hread
      rcases (expressionStep_worded hnest (by simp) hs hread).stays with hsame | hmore
      · rw [hsame] at hleft
        omega
      · rw [hmore, List.length_cons] at hleft
        omega
    have hstep := mapError_eq_ok.1 hstep
    unfold interpolationStep at hstep
    split at hstep
    · exact absurd hstep hword
    · split at hstep
      · next n hn =>
        split at hn
        · exact ⟨'\x7d', by decide, mem_of_interpolationEnd hn⟩
        · cases hn
      · exact absurd hstep hword
  · cases hstep

/-- Up to the place where an inner part is left stands a character at which words end. -/
theorem Leaves.exists_stop (h : Leaves defaultRules comments outer s tokens t)
    (hin : InTag s.nesting) (hbase : outer <:+ s.nesting) (houter : InTag outer)
    (hne : s.nesting ≠ outer) : ∃ stop ∈ stopChars, stop ∈ s.rest := by
  induction h with
  | left hnest => exact absurd hnest hne
  | @step s t u tokens more hinside hdone hstep hmore ih =>
    obtain ⟨hin', hbase'⟩ := suffix_of_step hin hdone hstep hbase hinside houter
    by_cases hnest : t.nesting = outer
    · refine exists_stop_of_step hin hdone hstep hin' ?_
      rw [hnest]
      exact hbase.length_le.lt_of_ne fun hlength =>
        hinside (hbase.eq_of_length hlength).symm
    · obtain ⟨stop, hstop, hmem⟩ := ih hin' hbase' hnest
      obtain ⟨n, -, ht⟩ := (turned_of_step hin hdone hstep).passes
      rw [ht] at hmem
      exact ⟨stop, hstop, List.mem_of_mem_drop hmem⟩

/-- A string that is left is not plain up to the end of the text. -/
theorem Leaves.plainLength_ne (h : Leaves defaultRules comments outer s tokens t)
    {below : List Nesting} (hnest : s.nesting = .string :: below) (hin : InTag below)
    (hne : s.nesting ≠ outer) : plainLength ['#', '\x7b'] s.rest ≠ s.rest.length := by
  have hin' : InTag s.nesting := by
    rw [hnest]
    exact hin
  intro hplain
  cases h with
  | left hleft => exact hne hleft
  | step _ hdone hstep hmore =>
    have hs := rest_ne_nil_of_isDone (.inr hin') hdone
    obtain ⟨x, hend⟩ := stringStep_to_end comments hnest hin hs hplain
    obtain ⟨rfl, rfl⟩ := Prod.mk.inj (Except.ok.inj (hend.symm.trans hstep))
    exact hne (hmore.nesting_eq_of_rest_eq_nil hin' (by simp))

/-- A run that leaves an inner part of a print tag is followed by a second lexer with more text
behind. -/
theorem Leaves.follows (h : Leaves defaultRules comments [.print] s tokens u)
    (hin : InTag s.nesting) (hbase : [.print] <:+ s.nesting) (hfollows : Follows behind k s t) :
    ∃ v, Leaves defaultRules comments [.print] t (tokens.map (Token.shift k)) v ∧
      Follows behind k u v := by
  induction h generalizing t with
  | left hnest => exact ⟨t, .left (hfollows.nesting.trans hnest), hfollows⟩
  | @step s s' u tokens more hinside hdone hstep hmore ih =>
    obtain ⟨hin', hbase'⟩ := suffix_of_step hin hdone hstep hbase hinside trivial
    have hs := rest_ne_nil_of_isDone (.inr hin) hdone
    have hstop := (Leaves.step hinside hdone hstep hmore).exists_stop hin hbase trivial hinside
    have hblock : ∀ {nesting : List Nesting}, [.print] <:+ nesting → nesting ≠ [.block] := by
      rintro _ hsuffix rfl
      cases hsuffix.eq_of_length rfl
    have hecho := partStep_echo hfollows hin hs (.inr hstop) fun htag =>
      absurd htag (by simp [hblock hbase, hinside])
    have hnest : t.nesting = s.nesting := hfollows.nesting
    have hdone' := isDone_of_follows hfollows hdone
    rw [step_of_inTag hin] at hstep
    have hstep' := step_of_inTag (r := defaultRules) (hnest ▸ hin) comments
    rw [hstep] at hecho
    generalize hnext : partStep defaultRules t = y at hecho hstep'
    cases hecho with
    | piece h =>
      obtain ⟨v, hv, hend⟩ := ih hin' hbase' h
      refine ⟨v, ?_, hend⟩
      rw [List.map_append]
      exact .step (by rwa [hnest]) hdone' hstep' hv
    | lost hbehind h =>
      cases h with
      | text _ hnil => exact absurd hnil hin'.ne_nil
      | block _ hblock' => exact absurd hblock' (hblock hbase')
      | string hstring hbelow hplain =>
        exact absurd hplain (hmore.plainLength_ne hstring hbelow (by simp [hstring]))

/-- A run that leaves an inner part reads the same at another place with the same text ahead. -/
theorem Leaves.alike {r : Rules} (h : Leaves r comments outer s tokens u) (hin : InTag s.nesting)
    (hbase : outer <:+ s.nesting) (houter : InTag outer) (hcore : s.core = t.core) :
    ∃ more v, Leaves r comments outer t more v ∧
      tokens.map Token.spelling = more.map Token.spelling ∧ u.core = v.core := by
  induction h generalizing t with
  | left hnest =>
    exact ⟨[], t, .left (nesting_eq_of_core hcore ▸ hnest), rfl, hcore⟩
  | @step s s' u tokens tokens' hinside hdone hstep hmore ih =>
    obtain ⟨hin', hbase'⟩ := suffix_of_step hin hdone hstep hbase hinside houter
    have hnest := nesting_eq_of_core hcore
    have hdone' : isDone comments t = false := by rwa [← isDone_eq_of_core hcore]
    have halike := partStep_alike (r := r) hcore
    rw [step_of_inTag hin] at hstep
    have hstep' := step_of_inTag (r := r) (hnest ▸ hin) comments
    rw [hstep] at halike
    generalize hnext : partStep r t = y at halike hstep'
    cases halike with
    | piece htokens hcore' =>
      obtain ⟨rest, v, hv, hrest, hend⟩ := ih hin' hbase' hcore'
      refine ⟨_ ++ rest, v, .step (by rwa [← hnest]) hdone' hstep' hv, ?_, hend⟩
      rw [List.map_append, List.map_append, htokens, hrest]

section

def Bracket.isPart (b : Bracket) : Bool :=
  b.opener == ['"'] || b.opener == ['#', '\x7b']

/-- Above the quote of a string, which is the innermost bracket around it, every part that is open
has a bracket. -/
def Quoted (quote : Bracket) (base : List Bracket) (outer nesting : List Nesting)
    (brackets : List Bracket) : Prop :=
  ∃ parts above, nesting = parts ++ outer ∧ brackets = above ++ quote :: base ∧
    parts.length = above.countP Bracket.isPart + 1

variable {quote b : Bracket} {base brackets closed : List Bracket} {nesting after : List Nesting}
  {part : Nesting}

theorem isPart_of_isOpener {c : Char} (hc : isOpener c = true) (hb : b.opener = [c]) :
    b.isPart = false := by
  simp only [isOpener, Bool.or_eq_true, beq_iff_eq] at hc
  rcases hc with (rfl | rfl) | rfl <;> simp [Bracket.isPart, hb]

namespace Quoted

theorem ne_nil (h : Quoted quote base outer nesting brackets) : brackets ≠ [] := by
  obtain ⟨parts, above, -, rfl, -⟩ := h
  simp

theorem push (h : Quoted quote base outer nesting brackets) (hb : b.isPart = true) :
    Quoted quote base outer (part :: nesting) (b :: brackets) := by
  obtain ⟨parts, above, rfl, rfl, hcount⟩ := h
  refine ⟨part :: parts, b :: above, rfl, rfl, ?_⟩
  rw [List.length_cons, List.countP_cons_of_pos hb, hcount]

theorem pop (h : Quoted quote base outer (part :: nesting) (b :: brackets))
    (hb : b.isPart = true) :
    nesting = outer ∧ brackets = base ∨ Quoted quote base outer nesting brackets := by
  obtain ⟨parts, above, hparts, habove, hcount⟩ := h
  obtain ⟨first, parts, rfl⟩ :=
    List.exists_cons_of_ne_nil (List.length_pos_iff.1 (by omega : 0 < parts.length))
  obtain ⟨-, hnesting⟩ := List.cons.inj hparts
  rw [List.length_cons] at hcount
  cases above with
  | nil =>
    obtain rfl : parts = [] := List.length_eq_zero_iff.1 (by simpa using hcount)
    exact .inl ⟨hnesting, (List.cons.inj habove).2⟩
  | cons a above =>
    obtain ⟨rfl, hbrackets⟩ := List.cons.inj habove
    rw [List.countP_cons_of_pos hb] at hcount
    exact .inr ⟨parts, above, hnesting, hbrackets, by omega⟩

theorem pushBracket (h : Quoted quote base outer nesting brackets) (hb : b.isPart = false) :
    Quoted quote base outer nesting (b :: brackets) := by
  obtain ⟨parts, above, hnesting, rfl, hcount⟩ := h
  refine ⟨parts, b :: above, hnesting, rfl, ?_⟩
  rw [List.countP_cons_of_neg (by simp [hb]), hcount]

theorem popBracket (h : Quoted quote base outer nesting (b :: brackets))
    (hquote : quote.isPart = true) (hb : b.isPart = false) :
    Quoted quote base outer nesting brackets := by
  obtain ⟨parts, above, hnesting, habove, hcount⟩ := h
  cases above with
  | nil =>
    obtain ⟨rfl, -⟩ := List.cons.inj habove
    simp [hb] at hquote
  | cons a above =>
    obtain ⟨rfl, hbrackets⟩ := List.cons.inj habove
    rw [List.countP_cons_of_neg (by simp [hb])] at hcount
    exact ⟨parts, above, hnesting, hbrackets, hcount⟩

end Quoted

/-- A turn inside a string closes what was opened last in it, and at last its quote. -/
theorem Turn.quoted (h : Turn ['#', '\x7b'] nesting brackets tokens after closed)
    (hquote : quote.isPart = true) (hquoted : Quoted quote base outer nesting brackets) :
    after = outer ∧ closed = base ∨ Quoted quote base outer after closed := by
  cases h with
  | plain => exact .inr hquoted
  | openBracket _ hc hb => exact .inr (hquoted.pushBracket (isPart_of_isOpener hc hb))
  | closeBracket hc hb =>
    exact .inr (hquoted.popBracket hquote (isPart_of_isOpener (of_bracketOf? hc).1 hb))
  | openString _ hb => exact .inr (hquoted.push (by simp [Bracket.isPart, hb]))
  | closeString hb => exact hquoted.pop (by simp [Bracket.isPart, hb])
  | leaveString => exact absurd rfl hquoted.ne_nil
  | openInterpolation hb => exact .inr (hquoted.push (by simp [Bracket.isPart, hb]))
  | closeInterpolation hb => exact hquoted.pop (by simp [Bracket.isPart, hb])
  | closeBlock => exact absurd rfl hquoted.ne_nil
  | closePrint => exact absurd rfl hquoted.ne_nil

theorem Leaves.brackets_eq_of_quoted (h : Leaves defaultRules comments outer s tokens t)
    (hin : InTag s.nesting) (hbase : outer <:+ s.nesting) (houter : InTag outer)
    (hquote : quote.isPart = true)
    (hquoted : s.nesting = outer ∧ s.brackets = base ∨
      Quoted quote base outer s.nesting s.brackets) : t.brackets = base := by
  induction h with
  | left hnest =>
    rcases hquoted with ⟨-, hbrackets⟩ | ⟨parts, above, hparts, -, hcount⟩
    · exact hbrackets
    · have := congrArg List.length (hnest.symm.trans hparts)
      rw [List.length_append] at this
      omega
  | step hinside hdone hstep _ ih =>
    obtain ⟨hin', hbase'⟩ := suffix_of_step hin hdone hstep hbase hinside houter
    exact ih hin' hbase' ((turned_of_step hin hdone hstep).turn.quoted hquote
      (hquoted.resolve_left fun hleft => hinside hleft.1))

/-- A string that is left closes the brackets in it and nothing around it. -/
theorem Leaves.brackets_eq (hin : InTag s.nesting)
    (h : Leaves defaultRules comments s.nesting s.openString tokens t) :
    t.brackets = s.brackets := by
  have hquoted : Quoted ⟨['"'], s.line⟩ s.brackets s.nesting s.openString.nesting
      s.openString.brackets := ⟨[.string], [], rfl, rfl, rfl⟩
  exact h.brackets_eq_of_quoted hin (List.suffix_cons _ _) hin rfl (.inr hquoted)

end

/-- In front of a quote stands a plain literal or a string. -/
theorem wordStep_quote (quote : Quote) (hrest : s.rest = quote.mark :: cs) :
    wordStep defaultRules quote.mark s =
      match stringLiteral? s.rest with
      | some body => .ok ([s.token .string (unescape body)], s.advance (body.length + 2))
      | none =>
        if quote.mark == '"' then .ok ([], s.openString)
        else .error (.unexpectedCharacter quote.mark, s.line) := by
  have hc := plainHead_quote quote
  have hnumber : quote.mark.isDigit = false := by cases quote <;> rfl
  have hpunctuation : isPunctuation quote.mark = false := by cases quote <;> rfl
  unfold wordStep
  simp only [hrest, hc.operator?, hc.nameLength, numberLength_of_not_isDigit hnumber, ne_eq,
    not_true_eq_false, if_false, hpunctuation, Bool.false_eq_true]
  rfl

/-- A text that is one string literal: where a lexer stands in a print tag in front of it and
nothing stands behind it, it reads the literal up to the end, with these tokens. -/
structure IsLiteral (comments : Comments) (text : List Char) (tokens : List Token) : Prop where
  quote : ∃ quote : Quote, text.head? = some quote.mark
  reads : ∃ t, ReadsExpression defaultRules comments (printState (String.ofList text)) tokens t ∧
    t.rest = []

section

variable {text gap : List Char}

@[simp] theorem rest_printState (text : List Char) :
    (printState (String.ofList text)).rest = text :=
  String.toList_ofList

inductive LiteralForm (comments : Comments) : List Char → List Token → Prop
  | plain {quote : Quote} {cs body : List Char} {token : Token}
      (hliteral : stringLiteral? (quote.mark :: cs) = some body)
      (hlength : (quote.mark :: cs).length = body.length + 2)
      (htoken : token.spelling = (.string, String.ofList (unescape body))) :
      LiteralForm comments (quote.mark :: cs) [token]
  | string {cs : List Char} {tokens : List Token} {t : State}
      (hliteral : stringLiteral? ('"' :: cs) = none)
      (hleaves : Leaves defaultRules comments [.print]
        (printState (String.ofList ('"' :: cs))).openString tokens t)
      (hrest : t.rest = []) : LiteralForm comments ('"' :: cs) tokens

theorem IsLiteral.form (h : IsLiteral comments text tokens) : LiteralForm comments text tokens := by
  obtain ⟨⟨quote, hquote⟩, t, ⟨first, u, more, hread, hmore, rfl⟩, ht⟩ := h
  obtain ⟨cs, rfl⟩ := List.head?_eq_some_iff.1 hquote
  have hrest := rest_printState (quote.mark :: cs)
  rw [expressionStep_of_gap isGap_nil (plainHead_quote quote).blank hrest, List.length_nil,
    State.advance_zero, wordStep_quote quote hrest, hrest] at hread
  cases hliteral : stringLiteral? (quote.mark :: cs) with
  | some body =>
    rw [hliteral] at hread
    obtain ⟨rfl, rfl⟩ := Prod.mk.inj (Except.ok.inj hread)
    obtain ⟨rfl, rfl⟩ := hmore.eq_of_nesting rfl
    have hle := stringLiteral?_le hliteral
    rw [State.rest_advance, hrest, List.drop_eq_nil_iff] at ht
    exact .plain hliteral (by omega) rfl
  | none =>
    rw [hliteral] at hread
    cases quote with
    | single => cases hread
    | double =>
      obtain ⟨rfl, rfl⟩ := Prod.mk.inj (Except.ok.inj hread)
      exact .string hliteral hmore ht

theorem follows_openString (hs : s.rest ≠ []) (hin : InTag s.nesting) (behind : List Char) :
    Follows behind 0 s.openString { s with rest := s.rest ++ behind }.openString := by
  have hfollows : Follows behind 0 s { s with rest := s.rest ++ behind } :=
    ⟨rfl, rfl, rfl, (List.map_id s.brackets).symm, fun _ => ⟨rfl, rfl⟩⟩
  exact ((hfollows.openBracket ['"']).enter fun _ => hin).advance (List.length_pos_iff.2 hs)

/-- A string is left alike in any print tag, whatever stands behind it. -/
theorem leaves_openString (htext : text ≠ [])
    (h : Leaves defaultRules comments [.print] (printState (String.ofList text)).openString tokens
      u) (hu : u.rest = []) (hs : InPrint s (text ++ behind)) :
    ∃ t more, Leaves defaultRules comments [.print] s.openString more t ∧
      tokens.map Token.spelling = more.map Token.spelling ∧ InPrint t behind := by
  have hrest := rest_printState text
  generalize hp : printState (String.ofList text) = p at h hrest
  obtain ⟨hpnest, hpbrackets⟩ : p.nesting = [.print] ∧ p.brackets = [] := by
    rw [← hp]
    exact ⟨rfl, rfl⟩
  have hin : InTag p.nesting := by
    rw [hpnest]
    trivial
  have hbase : [.print] <:+ p.openString.nesting := ⟨[.string], congrArg _ hpnest.symm⟩
  obtain ⟨v, hv, hfollows⟩ :=
    h.follows hin hbase (follows_openString (by rwa [hrest]) hin behind)
  have hcore : { p with rest := p.rest ++ behind }.openString.core = s.openString.core := by
    refine core_advance_pos ?_ ?_ ?_ ?_ Nat.one_ne_zero
    · show p.rest ++ behind = s.rest
      rw [hrest, hs.rest]
    · show p.rest ++ behind ≠ []
      rw [hrest]
      exact List.append_ne_nil_of_left_ne_nil htext behind
    · exact congrArg (Nesting.string :: ·) (hpnest.trans hs.nesting.symm)
    · show ['"'] :: p.brackets.map Bracket.opener = ['"'] :: s.brackets.map Bracket.opener
      rw [hpbrackets, hs.brackets]
  obtain ⟨more, t, ht, hspelling, hend⟩ := hv.alike hin hbase trivial hcore
  refine ⟨t, more, ht, ?_, ht.nesting_eq, ?_, ?_⟩
  · rw [← hspelling, List.map_map]
    rfl
  · rw [← hs.nesting] at ht
    rw [ht.brackets_eq (by rw [hs.nesting]; trivial), hs.brackets]
  · rw [← rest_eq_of_core hend, hfollows.rest, hu, List.nil_append]

/-- A literal is read alike in any print tag, behind any white space and whatever stands behind it.
-/
theorem IsLiteral.reaches (h : IsLiteral comments text tokens) (hgap : IsGap gap)
    (hs : InPrint s (gap ++ (text ++ behind))) :
    ∃ t more, Reaches defaultRules comments s more t ∧
      tokens.map Token.spelling = more.map Token.spelling ∧ InPrint t behind := by
  have hplace : InTag s.nesting := by
    rw [hs.nesting]
    trivial
  have hexpression : ReadsExpressions s.nesting := by
    rw [hs.nesting]
    trivial
  have hstep : ∀ (quote : Quote) {cs : List Char}, s.rest = gap ++ quote.mark :: cs →
      step defaultRules comments s =
        (wordStep defaultRules quote.mark (s.advance gap.length)).mapError .rejected :=
    fun quote _ hrest => step_of_gap comments hplace hexpression hgap
      (plainHead_quote quote).blank (plainHead_quote quote).not_mem_closingHeads hrest
  have hv : InPrint (s.advance gap.length) (text ++ behind) :=
    ⟨hs.nesting, hs.brackets, rest_advance_gap hs.rest⟩
  have hrest := hv.rest
  cases h.form with
  | @plain quote cs body token hliteral hlength htoken =>
    have hstep := hstep quote hs.rest
    rw [wordStep_quote quote hrest, hrest, stringLiteral?_append hliteral] at hstep
    refine ⟨_, _, .single (isDone_eq_false (by simp [hs.rest])) hstep, ?_, hv.nesting, hv.brackets,
      ?_⟩
    · rw [List.map_singleton, htoken]
      rfl
    · rw [State.rest_advance, hrest, ← hlength, List.drop_left]
  | @string cs tokens t hliteral hleaves hend =>
    have hstep := hstep .double hs.rest
    -- A plain literal would have to end behind the text, with all of the text plain in it.
    have hplain : plainLength ['#', '\x7b'] cs ≠ cs.length := by
      have hne := hleaves.plainLength_ne rfl trivial (List.cons_ne_self _ _)
      rwa [State.rest_openString, rest_printState] at hne
    have hnone : stringLiteral? ('"' :: cs ++ behind) = none :=
      (literalBody?_eq_none hliteral).resolve_right hplain
    rw [wordStep_quote .double hrest, hrest, hnone] at hstep
    obtain ⟨t, more, ht, hspelling, hend⟩ := leaves_openString (by simp) hleaves hend hv
    have hdone : isDone comments s = false := isDone_eq_false (by simp [hs.rest])
    exact ⟨t, more, (Reaches.single hdone hstep).trans ht.reaches, hspelling, hend⟩

end

end TemplateEngine.Lexer
