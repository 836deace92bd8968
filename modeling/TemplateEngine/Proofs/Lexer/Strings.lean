import TemplateEngine.Proofs.Lexer.Brackets

/-!
String literals between double quotes. Main statement: behind its opening quote a closed literal is
read in plain parts, in which no interpolation begins, and interpolations, and reading it at once as
a plain literal comes to the same exactly if no interpolation begins in the plain literal.
-/

namespace TemplateEngine.Lexer

variable {r : Rules} {comments : Comments} {s t u : State} {tokens more : List Token}
  {outer base : List Nesting} {opening cs raw rest body : List Char} {c : Char}

/-- The steps of a lexer up to the place where `outer` is left of the open parts. -/
inductive Leaves (r : Rules) (comments : Comments) (outer : List Nesting) :
    State → List Token → State → Prop
  | left {s : State} (hnest : s.nesting = outer) : Leaves r comments outer s [] s
  | step {s t u : State} {tokens more : List Token} (hinside : s.nesting ≠ outer)
      (hdone : isDone comments s = false) (hstep : step r comments s = .ok (tokens, t))
      (hmore : Leaves r comments outer t more u) : Leaves r comments outer s (tokens ++ more) u

namespace Leaves

theorem reaches (h : Leaves r comments outer s tokens t) : Reaches r comments s tokens t := by
  induction h with
  | left => exact .refl _
  | step _ hdone hstep _ ih => exact .step hdone hstep ih

theorem nesting_eq (h : Leaves r comments outer s tokens t) : t.nesting = outer := by
  induction h with
  | left hnest => exact hnest
  | step _ _ _ _ ih => exact ih

/-- Where the part has been left already, nothing more is read. -/
theorem eq_of_nesting (h : Leaves r comments outer s tokens t) (hnest : s.nesting = outer) :
    tokens = [] ∧ t = s := by
  cases h with
  | left => exact ⟨rfl, rfl⟩
  | step hinside => exact absurd hnest hinside

theorem unique (h : Leaves r comments outer s tokens t) (h' : Leaves r comments outer s more u) :
    tokens = more ∧ t = u := by
  induction h generalizing more u with
  | left hnest =>
    obtain ⟨rfl, rfl⟩ := h'.eq_of_nesting hnest
    exact ⟨rfl, rfl⟩
  | step hinside _ hstep _ ih =>
    cases h' with
    | left hnest => exact absurd hnest hinside
    | step _ _ hstep' hmore' =>
      obtain ⟨rfl, rfl⟩ := Prod.mk.inj (Except.ok.inj (hstep.symm.trans hstep'))
      obtain ⟨rfl, rfl⟩ := ih hmore'
      exact ⟨rfl, rfl⟩

end Leaves

/-- A move from within a part leaves what is open around it. -/
theorem Move.suffix {before after : List Nesting} (h : Move before tokens after)
    (hbase : base <:+ before) (hne : before ≠ base) : base <:+ after := by
  have htail : ∀ part rest, before = part :: rest → base <:+ rest := by
    rintro part rest rfl
    exact (List.suffix_cons_iff.1 hbase).resolve_left hne.symm
  cases h with
  | word => exact hbase
  | openString => exact hbase.trans (List.suffix_cons _ _)
  | openInterpolation => exact hbase.trans (List.suffix_cons _ _)
  | closeString => exact htail _ _ rfl
  | closeInterpolation => exact htail _ _ rfl
  | closeBlock => exact htail _ _ rfl
  | closePrint => exact htail _ _ rfl

/-- A step inside a tag, as a turn. -/
theorem turned_of_step (hin : InTag s.nesting) (hdone : isDone comments s = false)
    (hstep : step r comments s = .ok (tokens, t)) : Turned r s tokens t := by
  rw [step_of_inTag hin] at hstep
  exact partStep_turned (rest_ne_nil_of_isDone (.inr hin) hdone) hstep

theorem InTag.ne_nil {nesting : List Nesting} (h : InTag nesting) : nesting ≠ [] := by
  rintro rfl
  exact h

/-- A step from within the parts `base` of a tag stays within them. -/
theorem suffix_of_step (hin : InTag s.nesting) (hdone : isDone comments s = false)
    (hstep : step r comments s = .ok (tokens, t)) (hbase : base <:+ s.nesting)
    (hne : s.nesting ≠ base) (hpart : InTag base) : InTag t.nesting ∧ base <:+ t.nesting := by
  have hmove := (turned_of_step hin hdone hstep).turn.move
  have hafter := hmove.suffix hbase hne
  refine ⟨(hmove.inTag hin).resolve_left fun hnil => ?_, hafter⟩
  rw [hnil, List.suffix_nil] at hafter
  exact hpart.ne_nil hafter

/-- In an interpolation a turn gives the token of its end and leaves it, or stays in it. -/
theorem Turn.of_interpolation {below after : List Nesting} {before behind : List Bracket}
    (h : Turn opening (.interpolation :: below) before tokens after behind) (hbelow : InTag below) :
    (∃ ending, tokens = [ending] ∧ ending.kind = .interpolationEnd ∧ after = below) ∨
      InTag after ∧ .interpolation :: below <:+ after := by
  cases h with
  | closeInterpolation _ ht => exact .inl ⟨_, rfl, ht, rfl⟩
  | openString => exact .inr ⟨hbelow, List.suffix_cons _ _⟩
  | plain => exact .inr ⟨hbelow, List.suffix_refl _⟩
  | openBracket => exact .inr ⟨hbelow, List.suffix_refl _⟩
  | closeBracket => exact .inr ⟨hbelow, List.suffix_refl _⟩

/-- A turn starts an interpolation with its token and ends it with its token. -/
theorem Turn.openBehind?_eq {above above' : List Nesting} {before behind : List Bracket}
    (h : Turn opening (above ++ base) before tokens (above' ++ base) behind) :
    openBehind? (above.count .interpolation) tokens = some (above'.count .interpolation) := by
  have hword : ∀ {token : Token}, token.kind.isWord = true → above ++ base = above' ++ base →
      openBehind? (above.count .interpolation) [token] = some (above'.count .interpolation) := by
    intro token htoken hsame
    rw [paired_word htoken, List.append_cancel_right hsame]
  have henter : ∀ {part : Nesting}, above' ++ base = part :: (above ++ base) →
      above' = part :: above := fun hpart => List.append_cancel_right hpart
  have hleave : ∀ {part : Nesting}, above ++ base = part :: (above' ++ base) →
      above = part :: above' := fun hpart => List.append_cancel_right hpart
  generalize hbefore : above ++ base = nesting, hafter : above' ++ base = after at *
  cases h with
  | plain ht => exact hword ht.isWord rfl
  | openBracket _ _ _ hkind => exact hword (by rw [hkind]; rfl) rfl
  | closeBracket _ _ hkind => exact hword (by rw [hkind]; rfl) rfl
  | openString =>
    obtain rfl := henter rfl
    rfl
  | closeString =>
    obtain rfl := hleave rfl
    rfl
  | leaveString =>
    obtain rfl := hleave rfl
    rfl
  | openInterpolation _ ht =>
    obtain rfl := henter rfl
    rw [openBehind?_start ht, List.count_cons_self]
    rfl
  | closeInterpolation _ ht =>
    obtain rfl := hleave rfl
    rw [List.count_cons_self, openBehind?_end ht]
    rfl
  | closeBlock ht =>
    obtain rfl := hleave rfl
    rw [openBehind?_of_ne (by simp [ht]) (by simp [ht])]
    rfl
  | closePrint ht =>
    obtain rfl := hleave rfl
    rw [openBehind?_of_ne (by simp [ht]) (by simp [ht])]
    rfl

namespace Leaves

/-- On the way out of a tag's parts every part around them is left in turn. -/
theorem split (h : Leaves r comments outer s tokens t) (hin : InTag s.nesting)
    (hbase : base <:+ s.nesting) (houter : outer <:+ base) (hpart : InTag base) :
    ∃ inside u more, Leaves r comments base s inside u ∧ Leaves r comments outer u more t ∧
      tokens = inside ++ more := by
  induction h with
  | @left s hnest =>
    have hsame : s.nesting = base := by
      rw [hnest] at hbase ⊢
      exact houter.eq_of_length_le hbase.length_le
    exact ⟨[], s, [], .left hsame, .left hnest, rfl⟩
  | @step s t u tokens more hinside hdone hstep hmore ih =>
    by_cases hnest : s.nesting = base
    · exact ⟨[], s, _, .left hnest, .step hinside hdone hstep hmore, rfl⟩
    · obtain ⟨hin', hbase'⟩ := suffix_of_step hin hdone hstep hbase hnest hpart
      obtain ⟨inside, v, last, hleaves, hlast, rfl⟩ := ih hin' hbase'
      exact ⟨tokens ++ inside, v, last, .step hnest hdone hstep hleaves, hlast,
        (List.append_assoc ..).symm⟩

theorem length_rest_le (h : Leaves r comments base s tokens t) (hin : InTag s.nesting)
    (hbase : base <:+ s.nesting) (hpart : InTag base) : t.rest.length ≤ s.rest.length := by
  induction h with
  | left => exact Nat.le_refl _
  | @step s t u tokens more hinside hdone hstep _ ih =>
    obtain ⟨hin', hbase'⟩ := suffix_of_step hin hdone hstep hbase hinside hpart
    obtain ⟨n, hn, ht⟩ := (turned_of_step hin hdone hstep).passes
    have hshorter : t.rest.length ≤ s.rest.length := by
      rw [ht]
      simp
    exact Nat.le_trans (ih hin' hbase') hshorter

/-- An interpolation is left with the token of its end, and on the way there all interpolations end
that start. -/
theorem exists_interpolationEnd (above : List Nesting)
    (h : Leaves r comments (.string :: outer) s tokens t) (hin : InTag s.nesting)
    (hnest : s.nesting = above ++ .interpolation :: .string :: outer) (houter : InTag outer) :
    ∃ inside ending, tokens = inside ++ [ending] ∧ ending.kind = .interpolationEnd ∧
      openBehind? (above.count .interpolation) inside = some 0 := by
  induction h generalizing above with
  | left hleft =>
    have := congrArg List.length (hleft.symm.trans hnest)
    simp only [List.length_append, List.length_cons] at this
    omega
  | @step s t u tokens more hinside hdone hstep hmore ih =>
    have hturn := (turned_of_step hin hdone hstep).turn
    have hcases : (∃ ending, tokens = [ending] ∧ ending.kind = .interpolationEnd ∧
        t.nesting = .string :: outer ∧ above = []) ∨
          InTag t.nesting ∧ .interpolation :: .string :: outer <:+ t.nesting := by
      cases above with
      | nil =>
        rw [hnest] at hturn
        rcases hturn.of_interpolation houter with ⟨ending, htokens, hending, hleft⟩ | hstays
        · exact .inl ⟨ending, htokens, hending, hleft, rfl⟩
        · exact .inr hstays
      | cons part above =>
        refine .inr (suffix_of_step hin hdone hstep (hnest ▸ List.suffix_append _ _) ?_ houter)
        intro hsame
        have := congrArg List.length (hsame.symm.trans hnest)
        simp only [List.length_append, List.length_cons] at this
        omega
    rcases hcases with ⟨ending, rfl, hending, hleft, rfl⟩ | ⟨hin', above', habove⟩
    · obtain ⟨rfl, -⟩ := hmore.eq_of_nesting hleft
      exact ⟨[], ending, rfl, hending, rfl⟩
    · obtain ⟨inside, ending, rfl, hending, hinside⟩ := ih above' hin' habove.symm
      refine ⟨tokens ++ inside, ending, (List.append_assoc ..).symm, hending, ?_⟩
      rw [hnest, ← habove] at hturn
      rw [openBehind?_append, hturn.openBehind?_eq, Option.bind_some, hinside]

end Leaves

/-- In front of `rest` this is plain text of a string: its quotes are escaped, and outside of
escapes no interpolation begins in it. -/
inductive PlainPart (opening rest : List Char) : List Char → Prop
  | nil : PlainPart opening rest []
  | escaped {c : Char} {raw : List Char} (h : PlainPart opening rest raw) :
      PlainPart opening rest ('\\' :: c :: raw)
  | char {c : Char} {raw : List Char} (hquote : c ≠ '"') (hescape : c ≠ '\\')
      (hopening : ¬ opening <+: c :: (raw ++ rest)) (h : PlainPart opening rest raw) :
      PlainPart opening rest (c :: raw)

/-- What a plain part ends in front of: the closing quote or an interpolation. -/
def EndsPlain (opening rest : List Char) : Prop :=
  rest.head? = some '"' ∨ opening <+: rest

/-- The plain part that is taken from a string which is not plain up to the end of the text. -/
theorem plainPart_plainLength (h : plainLength opening cs < cs.length) :
    PlainPart opening (cs.drop (plainLength opening cs)) (cs.take (plainLength opening cs)) ∧
      EndsPlain opening (cs.drop (plainLength opening cs)) := by
  fun_induction plainLength opening cs with
  | case1 => simp at h
  | case2 c hc =>
    refine ⟨.nil, ?_⟩
    simp only [Bool.or_eq_true, Bool.and_eq_true, beq_iff_eq, List.isPrefixOf_iff_prefix] at hc
    rcases hc with rfl | ⟨-, hopening⟩
    · exact .inl rfl
    · exact .inr hopening
  | case3 => simp at h
  | case4 c d cs hquote =>
    obtain rfl : c = '"' := by simpa using hquote
    exact ⟨.nil, .inl rfl⟩
  | case5 c d cs hquote hescape ih =>
    obtain rfl : c = '\\' := by simpa using hescape
    rw [Nat.add_comm, List.take_succ_cons, List.take_succ_cons, List.drop_succ_cons,
      List.drop_succ_cons]
    obtain ⟨hplain, hend⟩ := ih (by simp only [List.length_cons] at h; omega)
    exact ⟨.escaped hplain, hend⟩
  | case6 c d cs hquote hescape hopening =>
    exact ⟨.nil, .inr (List.isPrefixOf_iff_prefix.1 hopening)⟩
  | case7 c d cs hquote hescape hopening ih =>
    rw [Nat.add_comm, List.take_succ_cons, List.drop_succ_cons]
    obtain ⟨hplain, hend⟩ := ih (by simp only [List.length_cons] at h ⊢; omega)
    refine ⟨.char (by simpa using hquote) (by simpa using hescape) ?_ hplain, hend⟩
    rwa [List.take_append_drop, ← List.isPrefixOf_iff_prefix]

/-- An interpolation begins in this inside of a literal, outside of its escapes. -/
inductive Occurs (opening : List Char) : List Char → Prop
  | here {cs : List Char} (h : opening <+: cs) : Occurs opening cs
  | escaped {c : Char} {cs : List Char} (h : Occurs opening cs) : Occurs opening ('\\' :: c :: cs)
  | behind {c : Char} {cs : List Char} (hc : c ≠ '\\') (h : Occurs opening cs) :
      Occurs opening (c :: cs)

theorem not_prefix_cons (hne : opening ≠ []) (hc : c ∉ opening) : ¬ opening <+: c :: cs := by
  obtain ⟨d, ds, rfl⟩ := List.exists_cons_of_ne_nil hne
  rintro h
  obtain ⟨rfl, -⟩ := List.cons_prefix_cons.1 h
  simp at hc

/-- No interpolation begins in a plain part. -/
theorem PlainPart.not_occurs (h : PlainPart opening rest raw) (hne : opening ≠ [])
    (hescape : '\\' ∉ opening) : ¬ Occurs opening raw := by
  induction h with
  | nil =>
    rintro ⟨h⟩
    exact hne (List.prefix_nil.1 h)
  | escaped _ ih =>
    intro h
    cases h with
    | here h => exact not_prefix_cons hne hescape h
    | escaped h => exact ih h
    | behind hc => exact hc rfl
  | char _ hc hopening _ ih =>
    intro h
    cases h with
    | here h =>
      rw [← List.cons_append] at hopening
      exact hopening (h.trans (List.prefix_append _ _))
    | escaped => exact hc rfl
    | behind _ h => exact ih h

/-- A plain part up to the closing quote is the inside of the literal. -/
theorem PlainPart.literalBody? (h : PlainPart opening ('"' :: rest) raw) :
    literalBody? '"' (fun _ => false) (raw ++ '"' :: rest) = some raw := by
  induction h with
  | nil => cases rest <;> simp [Lexer.literalBody?]
  | escaped _ ih => simp [Lexer.literalBody?, ih]
  | @char c raw hquote hescape _ _ ih =>
    obtain ⟨d, ds, hd⟩ : ∃ d ds, raw ++ '"' :: rest = d :: ds :=
      List.exists_cons_of_ne_nil (by simp)
    rw [hd] at ih
    simp [hd, Lexer.literalBody?, hquote, hescape, ih]

/-- The inside of a literal is the same if more characters may stand in it. -/
theorem literalBody?_of_refused {quote : Char} {refused : Char → Bool}
    (h : literalBody? quote refused cs = some body) :
    literalBody? quote (fun _ => false) cs = some body := by
  fun_induction literalBody? quote refused cs generalizing body with
  | case1 => simp at h
  | case2 c hquote => simp_all [literalBody?]
  | case3 => simp at h
  | case4 c d cs hquote => simp_all [literalBody?]
  | case5 c d cs hquote hescape ih =>
    obtain ⟨rest, hrest, rfl⟩ := Option.map_eq_some_iff.1 h
    simp [literalBody?, hquote, hescape, ih hrest]
  | case6 => simp at h
  | case7 c d cs hquote hescape _ ih =>
    obtain ⟨rest, hrest, rfl⟩ := Option.map_eq_some_iff.1 h
    simp [literalBody?, hquote, hescape, ih hrest]

/-- The inside of a literal in which no interpolation begins is a plain part. -/
theorem plainPart_of_literalBody? (hquote : '"' ∉ opening)
    (h : literalBody? '"' (fun _ => false) cs = some body) (hnone : ¬ Occurs opening body) :
    ∃ rest, cs = body ++ '"' :: rest ∧ PlainPart opening ('"' :: rest) body := by
  fun_induction literalBody? '"' (fun _ => false) cs generalizing body with
  | case1 => simp at h
  | case2 c hc =>
    obtain rfl : c = '"' := by simpa using hc
    obtain rfl := Option.some.inj h
    exact ⟨[], rfl, .nil⟩
  | case3 => simp at h
  | case4 c d cs hc =>
    obtain rfl : c = '"' := by simpa using hc
    obtain rfl := Option.some.inj h
    exact ⟨d :: cs, rfl, .nil⟩
  | case5 c d cs hc hescape ih =>
    obtain rfl : c = '\\' := by simpa using hescape
    obtain ⟨more, hmore, rfl⟩ := Option.map_eq_some_iff.1 h
    obtain ⟨rest, rfl, hplain⟩ := ih hmore fun hoccurs => hnone (.escaped hoccurs)
    exact ⟨rest, rfl, .escaped hplain⟩
  | case6 => contradiction
  | case7 c d cs hc hescape _ ih =>
    obtain ⟨more, hmore, rfl⟩ := Option.map_eq_some_iff.1 h
    have hc' : c ≠ '\\' := by simpa using hescape
    obtain ⟨rest, hrest, hplain⟩ := ih hmore fun hoccurs => hnone (.behind hc' hoccurs)
    refine ⟨rest, by rw [hrest]; rfl, .char (by simpa using hc) hc' (fun hopening => ?_) hplain⟩
    have hshort : opening.length ≤ (c :: more).length := by
      refine Nat.le_of_not_lt fun hlong => ?_
      rw [← List.cons_append] at hopening
      have hclosed : c :: more ++ ['"'] <+: c :: more ++ '"' :: rest := by simp
      have hfront : c :: more ++ ['"'] <+: opening :=
        List.prefix_of_prefix_length_le hclosed hopening (by simpa using Nat.succ_le_of_lt hlong)
      exact hquote (hfront.subset (by simp))
    exact hnone (.here (List.prefix_of_prefix_length_le hopening
      (by rw [← List.cons_append]; exact List.prefix_append _ _) hshort))

/-- A plain part with its end behind it is what the length of plain text comes to. -/
theorem PlainPart.plainLength_eq (h : PlainPart opening ('"' :: rest) raw) :
    plainLength opening (raw ++ '"' :: rest) = raw.length := by
  induction h with
  | nil => cases rest <;> simp [plainLength]
  | escaped _ ih =>
    simp [plainLength, ih]
    omega
  | char hquote hescape hopening _ ih =>
    rw [List.cons_append, plainLength_cons hquote hescape hopening, ih, List.length_cons,
      Nat.add_comm]

namespace State

/-- The state behind the opening quote of a string. -/
def openString (s : State) : State :=
  ((s.openBracket ['"']).enter .string).advance 1

def closeString (s : State) : State :=
  ({ s with brackets := s.brackets.tail }.leave).advance 1

/-- The state behind the start of an interpolation and the white space there. -/
def openInterpolation (r : Rules) (s : State) : State :=
  ((s.openBracket r.interpolation.opening).advance (r.interpolation.opening.length +
    ((s.rest.drop r.interpolation.opening.length).takeWhile Text.isBlank).length)).enter
      .interpolation

@[simp] theorem rest_openString (s : State) : s.openString.rest = s.rest.drop 1 := rfl

theorem line_openString (hrest : s.rest = '"' :: cs) : s.openString.line = s.line := by
  simp [openString, enter, openBracket, hrest]

end State

inductive StringPart where
  | plain (raw : List Char)
  | interpolated (inside : List Token)

/-- How a string is read behind its opening quote, in its parts and with their tokens. -/
inductive ReadsString (r : Rules) (comments : Comments) (outer : List Nesting) :
    State → List StringPart → List Token → State → Prop
  | close {s : State} (hquote : s.rest.head? = some '"') :
      ReadsString r comments outer s [] [] s.closeString
  | plain {s t : State} {raw rest : List Char} {parts : List StringPart} {tokens : List Token}
      (hne : raw ≠ []) (hrest : s.rest = raw ++ rest)
      (hplain : PlainPart r.interpolation.opening rest raw)
      (hend : EndsPlain r.interpolation.opening rest)
      (h : ReadsString r comments outer (s.advance raw.length) parts tokens t) :
      ReadsString r comments outer s (.plain raw :: parts)
        (s.token .string (unescape raw) :: tokens) t
  | interpolated {s u t : State} {inside tokens : List Token} {ending : Token}
      {parts : List StringPart} (hopening : r.interpolation.opening <+: s.rest)
      (hinside : Leaves r comments (.string :: outer) (s.openInterpolation r)
        (inside ++ [ending]) u)
      (hending : ending.kind = .interpolationEnd)
      (h : ReadsString r comments outer u parts tokens t) :
      ReadsString r comments outer s (.interpolated inside :: parts)
        (s.token .interpolationStart r.interpolation.opening :: (inside ++ ending :: tokens)) t

theorem interpolationStart_length? (r : Rules) (cs : List Char) :
    r.interpolationStart.length? cs =
      if r.interpolation.opening <+: cs then
        some (r.interpolation.opening.length +
          ((cs.drop r.interpolation.opening.length).takeWhile Text.isBlank).length)
      else none := by
  simp only [Rules.interpolationStart, Pattern.length?_literal_andThen, Pattern.length?_run,
    Option.map_some, List.isPrefixOf_iff_prefix]

inductive StringStep (r : Rules) (s : State) : List Token → State → Prop
  | interpolation (hopening : r.interpolation.opening <+: s.rest) :
      StringStep r s [s.token .interpolationStart r.interpolation.opening] (s.openInterpolation r)
  | plain (hne : plainLength r.interpolation.opening s.rest ≠ 0) :
      StringStep r s
        [s.token .string (unescape (s.rest.take (plainLength r.interpolation.opening s.rest)))]
        (s.advance (plainLength r.interpolation.opening s.rest))
  | close (hquote : s.rest.head? = some '"') : StringStep r s [] s.closeString

theorem stringStep_cases (h : stringStep r s = .ok (tokens, t)) : StringStep r s tokens t := by
  unfold stringStep at h
  rw [interpolationStart_length?] at h
  split at h
  · next n hn =>
    obtain ⟨rfl, rfl⟩ := Prod.mk.inj (Except.ok.inj h)
    split at hn
    · next hopening =>
      obtain rfl := Option.some.inj hn
      exact .interpolation hopening
    · simp at hn
  simp only at h
  split at h
  · next hne =>
    obtain ⟨rfl, rfl⟩ := Prod.mk.inj (Except.ok.inj h)
    exact .plain hne
  split at h
  · next hrest =>
    have hquote : s.rest.head? = some '"' := by rw [hrest]; rfl
    split at h
    · next hbrackets =>
      obtain ⟨rfl, rfl⟩ := Prod.mk.inj (Except.ok.inj h)
      have : s.leave.advance 1 = s.closeString := by
        rw [State.closeString, hbrackets, List.tail_nil, ← hbrackets]
      rw [this]
      exact .close hquote
    · next innermost outer' hbrackets =>
      split at h
      · obtain ⟨rfl, rfl⟩ := Prod.mk.inj (Except.ok.inj h)
        have : ({ s with brackets := outer' }.leave).advance 1 = s.closeString := by
          rw [State.closeString, hbrackets, List.tail_cons]
        rw [this]
        exact .close hquote
      · simp at h
  · simp at h
  · simp at h

/-- At the end of the text no part of a tag is left any more. -/
theorem Leaves.nesting_eq_of_rest_eq_nil (h : Leaves r comments outer s tokens t)
    (hin : InTag s.nesting) (hrest : s.rest = []) : s.nesting = outer := by
  cases h with
  | left hnest => exact hnest
  | step _ hdone => simp [isDone_of_rest_eq_nil hrest (.inr hin)] at hdone

/-- A lexer that leaves a string from inside an interpolation comes past the end of that first. -/
theorem Leaves.split_interpolation (hnest : s.nesting = .string :: outer) (hin : InTag outer)
    (h : Leaves r comments outer (s.openInterpolation r) tokens t) :
    ∃ inside ending u more, tokens = inside ++ ending :: more ∧ ending.kind = .interpolationEnd ∧
      Leaves r comments (.string :: outer) (s.openInterpolation r) (inside ++ [ending]) u ∧
      Leaves r comments outer u more t ∧ u.rest.length ≤ (s.openInterpolation r).rest.length := by
  have hinner : (s.openInterpolation r).nesting = .interpolation :: .string :: outer :=
    congrArg (Nesting.interpolation :: ·) hnest
  have hin' : InTag (s.openInterpolation r).nesting := hinner ▸ hin
  have hbase : .string :: outer <:+ (s.openInterpolation r).nesting :=
    hinner ▸ List.suffix_cons _ _
  obtain ⟨inside, u, more, hleaves, hmore, rfl⟩ :=
    h.split hin' hbase (List.suffix_cons _ _) hin
  obtain ⟨inside, ending, rfl, hending, -⟩ := hleaves.exists_interpolationEnd [] hin' hinner hin
  exact ⟨inside, ending, u, more, by simp, hending, hleaves, hmore,
    hleaves.length_rest_le hin' hbase hin⟩

/-- A string that is closed consists of its parts. -/
theorem exists_readsString (hnest : s.nesting = .string :: outer) (hin : InTag outer)
    (h : Leaves r comments outer s tokens t) :
    ∃ parts, ReadsString r comments outer s parts tokens t := by
  induction hlength : s.rest.length using Nat.strongRecOn generalizing s tokens with
  | _ length ih =>
    cases h with
    | left hleft => simp [hnest] at hleft
    | @step _ u _ tokens more hinside hdone hstep hmore =>
      have hin' : InTag s.nesting := hnest ▸ hin
      obtain ⟨n, hn, hpasses⟩ := (turned_of_step hin' hdone hstep).passes
      have hshorter : u.rest.length < s.rest.length := by
        rw [hpasses]
        exact length_rest_advance_lt (rest_ne_nil_of_isDone (.inr hin') hdone) hn
      have hpart : stringStep r s = .ok (tokens, u) := by
        rw [step_of_inTag hin', partStep, hnest] at hstep
        exact mapError_eq_ok.1 hstep
      cases stringStep_cases hpart with
      | interpolation hopening =>
        obtain ⟨inside, ending, v, last, rfl, hending, hleaves, hlast, hle⟩ :=
          hmore.split_interpolation hnest hin
        obtain ⟨parts, hparts⟩ := ih _ (by omega) hleaves.nesting_eq hlast rfl
        exact ⟨.interpolated inside :: parts, .interpolated hopening hleaves hending hparts⟩
      | plain hne =>
        obtain ⟨parts, hparts⟩ := ih _ (hlength ▸ hshorter) (by exact hnest) hmore rfl
        have hlt : plainLength r.interpolation.opening s.rest < s.rest.length := by
          refine Nat.lt_of_le_of_ne (plainLength_le _ _) fun hend => ?_
          have := hmore.nesting_eq_of_rest_eq_nil hin' (by simp [hend])
          simp [hnest] at this
        obtain ⟨hplain, hend⟩ := plainPart_plainLength hlt
        refine ⟨.plain _ :: parts, .plain ?_ (List.take_append_drop _ _).symm hplain hend ?_⟩
        · intro hnil
          have := congrArg List.length hnil
          rw [List.length_take, List.length_nil] at this
          omega
        · rwa [List.length_take, Nat.min_eq_left (Nat.le_of_lt hlt)]
      | close hquote =>
        obtain ⟨rfl, rfl⟩ := hmore.eq_of_nesting (by simp [State.closeString, State.leave, hnest])
        exact ⟨[], .close hquote⟩

/-- Interpolations begin with the characters that the settings say. -/
theorem interpolation_opening_of_ofOptions {options : Options} {lexer : Lexer}
    (h : ofOptions options comments = .ok lexer) :
    lexer.rules.interpolation.opening = options.interpolation.1.toList := by
  obtain ⟨r, hr, rfl⟩ := ofOptions_eq_ok.1 h
  rw [← Rules.interpolation_of_ofOptions? hr, String.toList_ofList]

theorem interpolationStart_eq_none_of_not_isPrefix (h : ¬ r.interpolation.opening <+: cs) :
    r.interpolationStart.length? cs = none := by
  rw [interpolationStart_length?, if_neg h]

/-- In front of a double quote stands an operator, a plain literal or a string. -/
theorem expressionStep_of_quote (hrest : s.rest = '"' :: cs) :
    expressionStep r s =
      match r.operator? s.previous s.rest with
      | some (operator, n) => .ok ([s.token .operator operator.value], s.advance n)
      | none =>
        match stringLiteral? s.rest with
        | some body => .ok ([s.token .string (unescape body)], s.advance (body.length + 2))
        | none => .ok ([], s.openString) := by
  have hblank : (s.rest.takeWhile Text.isBlank).length = 0 := by
    rw [hrest]
    rfl
  have hname : nameLength s.rest = 0 := by
    rw [hrest]
    rfl
  have hnumber : numberLength s.rest = 0 := by
    rw [hrest]
    rfl
  have hword : expressionStep r s = wordStep r '"' s := by
    have hzero : s.advance 0 = s := rfl
    unfold expressionStep
    simp only [hblank, hzero]
    rw [hrest]
  rw [hword, wordStep, hname, hnumber]
  rfl

theorem PlainPart.not_isPrefix (h : PlainPart opening rest raw) (hne : opening ≠ [])
    (hescape : '\\' ∉ opening) (hraw : raw ≠ []) : ¬ opening <+: raw ++ rest := by
  cases h with
  | nil => exact absurd rfl hraw
  | escaped => exact not_prefix_cons hne hescape
  | char _ _ hopening => exact hopening

/-- Inside a string the lexer goes on with the steps of strings. -/
theorem Leaves.stringStep (hnest : s.nesting = .string :: outer) (hin : InTag outer)
    (hs : s.rest ≠ []) (hstep : stringStep r s = .ok (tokens, t))
    (hmore : Leaves r comments outer t more u) : Leaves r comments outer s (tokens ++ more) u := by
  refine .step (by simp [hnest]) ?_ ?_ hmore
  · cases comments <;> simp [isDone, hs]
  · rw [step_of_inTag (hnest ▸ hin), partStep, hnest]
    exact mapError_eq_ok.2 hstep

/-- A literal in which no interpolation begins is read in one part as a string. -/
theorem leaves_of_plainPart (hin : InTag s.nesting) (hquote : '"' ∉ r.interpolation.opening)
    (hescape : '\\' ∉ r.interpolation.opening) (hrest : s.rest = '"' :: (body ++ '"' :: rest))
    (hbody : body ≠ []) (hplain : PlainPart r.interpolation.opening ('"' :: rest) body) :
    Leaves r comments s.nesting s.openString [s.token .string (unescape body)]
      (s.advance (body.length + 2)) := by
  have hne := r.interpolation.opening_ne_nil
  have hlength := hplain.plainLength_eq
  have hbehind : s.openString.rest = body ++ '"' :: rest := by
    rw [State.rest_openString, hrest, List.drop_one, List.tail_cons]
  have hend : (s.openString.advance body.length).rest = '"' :: rest := by
    rw [State.rest_advance, hbehind, List.drop_left]
  have hread : stringStep r s.openString =
      .ok ([s.token .string (unescape body)], s.openString.advance body.length) := by
    have hstart := interpolationStart_eq_none_of_not_isPrefix
      (hbehind ▸ hplain.not_isPrefix hne hescape hbody)
    have hpos : plainLength r.interpolation.opening s.openString.rest ≠ 0 := by
      rw [hbehind, hlength]
      exact mt List.length_eq_zero_iff.1 hbody
    rw [stringStep_plain hstart hpos, hbehind, hlength, List.take_left, State.token, State.token,
      State.line_openString hrest]
  have hclose : stringStep r (s.openString.advance body.length) =
      .ok ([], s.advance (body.length + 2)) := by
    have hstart := interpolationStart_eq_none_of_not_isPrefix
      (hend ▸ not_prefix_cons hne hquote)
    have hbrackets : (s.openString.advance body.length).brackets = ⟨['"'], s.line⟩ :: s.brackets :=
      rfl
    have hadvance :
        s.advance (body.length + 2) = ((s.advance 1).advance body.length).advance 1 := by
      rw [State.advance_advance, State.advance_advance, Nat.add_comm 1, Nat.add_assoc]
    rw [stringStep_quote hstart hend, hbrackets, hadvance]
    rfl
  exact .stringStep rfl hin (by rw [hbehind]; simp) hread
    (.stringStep rfl hin (by rw [hend]; simp) hclose (.left rfl))

/-- A string that is not empty begins with the token of a plain part or an interpolation. -/
theorem ReadsString.exists_first {parts : List StringPart}
    (h : ReadsString r comments outer s parts tokens t) (hs : s.rest.head? ≠ some '"') :
    ∃ first more, tokens = first :: more ∧
      (first.kind = .string ∨ first.kind = .interpolationStart) := by
  cases h with
  | close hquote => exact absurd hquote hs
  | plain => exact ⟨_, _, rfl, .inl rfl⟩
  | interpolated => exact ⟨_, _, rfl, .inr rfl⟩

/-- A string of a single token, if that is no interpolation, is a plain part. -/
theorem ReadsString.exists_plain {parts : List StringPart} {token : Token}
    (h : ReadsString r comments outer s parts [token] t) (hkind : token.kind = .string) :
    ∃ raw rest, s.rest = raw ++ '"' :: rest ∧
      PlainPart r.interpolation.opening ('"' :: rest) raw := by
  generalize htokens : [token] = tokens at h
  cases h with
  | close => simp at htokens
  | @plain _ _ raw rest _ _ _ hrest hplain _ h =>
    obtain ⟨-, rfl⟩ := List.cons.inj htokens
    cases h with
    | close hquote =>
      rw [State.rest_advance, hrest, List.drop_left] at hquote
      obtain ⟨behind, rfl⟩ := List.head?_eq_some_iff.1 hquote
      exact ⟨raw, behind, hrest, hplain⟩
  | interpolated =>
    obtain ⟨rfl, -⟩ := List.cons.inj htokens
    simp [State.token] at hkind

/-- From here an expression is read with these tokens up to this state, at once or in several steps
that leave what they open. -/
def ReadsExpression (r : Rules) (comments : Comments) (s : State) (tokens : List Token)
    (t : State) : Prop :=
  ∃ first u more, expressionStep r s = .ok (first, u) ∧
    Leaves r comments s.nesting u more t ∧ tokens = first ++ more

/-- A literal with an interpolation is read as a string. -/
theorem ReadsExpression.leaves (h : ReadsExpression r comments s tokens t)
    (hrest : s.rest = '"' :: cs) (hinterpolation : ∃ x ∈ tokens, x.kind = .interpolationStart) :
    Leaves r comments s.nesting s.openString tokens t := by
  obtain ⟨first, u, more, hstep, hmore, rfl⟩ := h
  have hsingle : ∀ {kind : TokenKind} {value : List Char} {n : Nat}, kind ≠ .interpolationStart →
      first = [s.token kind value] → u = s.advance n → False := by
    rintro kind value n hkind rfl rfl
    obtain ⟨rfl, -⟩ := hmore.eq_of_nesting rfl
    obtain ⟨x, hx, hstart⟩ := hinterpolation
    rw [List.append_nil, List.mem_singleton] at hx
    exact hkind (by rw [← hstart, hx]; rfl)
  rw [expressionStep_of_quote hrest] at hstep
  split at hstep
  · obtain ⟨hfirst, hu⟩ := Prod.mk.inj (Except.ok.inj hstep)
    exact (hsingle (by simp) hfirst.symm hu.symm).elim
  split at hstep
  · obtain ⟨hfirst, hu⟩ := Prod.mk.inj (Except.ok.inj hstep)
    exact (hsingle (by simp) hfirst.symm hu.symm).elim
  · obtain ⟨rfl, rfl⟩ := Prod.mk.inj (Except.ok.inj hstep)
    exact hmore

/-- A closed literal in which no interpolation begins is a single token as a string. -/
theorem Leaves.eq_of_literalBody? (hclosed : Leaves r comments s.nesting s.openString tokens t)
    (hin : InTag s.nesting) (hquote : '"' ∉ r.interpolation.opening)
    (hescape : '\\' ∉ r.interpolation.opening) {c : Char} (hrest : s.rest = '"' :: c :: cs)
    (hc : c ≠ '"') (hbody : literalBody? '"' (fun _ => false) (c :: cs) = some body)
    (hnone : ¬ Occurs r.interpolation.opening body) :
    tokens = [s.token .string (unescape body)] ∧ t = s.advance (body.length + 2) := by
  obtain ⟨rest, hsplit, hplain⟩ := plainPart_of_literalBody? hquote hbody hnone
  have hne : body ≠ [] := by
    rintro rfl
    exact hc (List.cons.inj hsplit).1
  exact hclosed.unique (leaves_of_plainPart hin hquote hescape (hsplit ▸ hrest) hne hplain)

/-- A literal that is not empty and read as a string is neither an operator nor a plain literal in
which an interpolation begins. -/
theorem ReadsExpression.operator?_eq_none_and_not_occurs {parts : List StringPart} {c : Char}
    (h : ReadsExpression r comments s tokens t) (hescape : '\\' ∉ r.interpolation.opening)
    (hrest : s.rest = '"' :: c :: cs) (hc : c ≠ '"')
    (hparts : ReadsString r comments s.nesting s.openString parts tokens t) :
    r.operator? s.previous s.rest = none ∧
      ∀ body, stringLiteral? s.rest = some body → ¬ Occurs r.interpolation.opening body := by
  obtain ⟨first, u, more, hstep, hmore, rfl⟩ := h
  rw [expressionStep_of_quote hrest] at hstep
  cases hoperator : r.operator? s.previous s.rest with
  | some found =>
    rw [hoperator] at hstep
    obtain ⟨rfl, rfl⟩ := Prod.mk.inj (Except.ok.inj hstep)
    obtain ⟨token, last, htokens, hkind⟩ := hparts.exists_first (by simpa [hrest] using hc)
    obtain ⟨rfl, -⟩ := List.cons.inj htokens
    simp [State.token] at hkind
  | none =>
    refine ⟨rfl, fun body hliteral => ?_⟩
    rw [hoperator, hliteral] at hstep
    obtain ⟨rfl, rfl⟩ := Prod.mk.inj (Except.ok.inj hstep)
    obtain ⟨rfl, -⟩ := hmore.eq_of_nesting rfl
    obtain ⟨raw, rest, hsplit, hplain⟩ := hparts.exists_plain rfl
    have hraw := hplain.literalBody?
    rw [← hsplit, State.rest_openString, hrest] at hraw
    rw [hrest] at hliteral
    obtain rfl : raw = body :=
      Option.some.inj (hraw.symm.trans (literalBody?_of_refused hliteral))
    exact hplain.not_occurs r.interpolation.opening_ne_nil hescape

/-- A literal between double quotes that is closed, whatever interpolations begin with, if only
without a quote or a backslash. As a string it consists of plain parts and interpolations, and of a
single plain part if no interpolation begins in it. The lexer reads it as that string exactly if the
quote begins no operator and no interpolation begins in what is read at once as a plain literal. -/
theorem literal_readsExpression_iff {options : Options} {comments : Comments} {lexer : Lexer}
    (hlexer : ofOptions options comments = .ok lexer)
    (hquote : '"' ∉ options.interpolation.1.toList)
    (hescape : '\\' ∉ options.interpolation.1.toList) {s t : State} {c : Char} {cs : List Char}
    {tokens : List Token} (hin : InTag s.nesting) (hrest : s.rest = '"' :: c :: cs) (hc : c ≠ '"')
    (hclosed : Leaves lexer.rules comments s.nesting s.openString tokens t) :
    (∃ parts, ReadsString lexer.rules comments s.nesting s.openString parts tokens t) ∧
    (∀ body, literalBody? '"' (fun _ => false) (c :: cs) = some body →
      ¬ Occurs options.interpolation.1.toList body →
      tokens = [s.token .string (unescape body)] ∧ t = s.advance (body.length + 2)) ∧
    (ReadsExpression lexer.rules comments s tokens t ↔
      lexer.rules.operator? s.previous s.rest = none ∧
        ∀ body, stringLiteral? s.rest = some body →
          ¬ Occurs options.interpolation.1.toList body) := by
  rw [← interpolation_opening_of_ofOptions hlexer] at hquote hescape ⊢
  have hreads := exists_readsString rfl hin hclosed
  have hsingle : ∀ body, literalBody? '"' (fun _ => false) (c :: cs) = some body →
      ¬ Occurs lexer.rules.interpolation.opening body →
      tokens = [s.token .string (unescape body)] ∧ t = s.advance (body.length + 2) :=
    fun _ hbody hnone => hclosed.eq_of_literalBody? hin hquote hescape hrest hc hbody hnone
  refine ⟨hreads, hsingle, ⟨fun hread => ?_, ?_⟩⟩
  · obtain ⟨parts, hparts⟩ := hreads
    exact hread.operator?_eq_none_and_not_occurs hescape hrest hc hparts
  · rintro ⟨hoperator, hnone⟩
    have hstep := expressionStep_of_quote (r := lexer.rules) hrest
    rw [hoperator] at hstep
    cases hliteral : stringLiteral? s.rest with
    | none =>
      rw [hliteral] at hstep
      exact ⟨[], s.openString, tokens, hstep, hclosed, rfl⟩
    | some body =>
      rw [hliteral] at hstep
      have hbody : literalBody? '"' (fun _ => false) (c :: cs) = some body := by
        rw [hrest] at hliteral
        exact literalBody?_of_refused hliteral
      obtain ⟨rfl, rfl⟩ := hsingle body hbody (hnone body hliteral)
      exact ⟨_, _, [], hstep, .left rfl, rfl⟩

def printState (text : String) : State :=
  ⟨text.toList, 3, some ' ', 1, [.print], [], [], 1⟩

/-- Under the default settings an interpolation is read as such. -/
theorem literal_readsExpression_iff_interpolation :
    ∃ lexer tokens t, ofOptions {} .drop = .ok lexer ∧
      Leaves lexer.rules .drop [.print] (printState "\"a#\x7bx\x7d\"").openString tokens t ∧
      tokens.map (·.kind) = [.string, .interpolationStart, .name, .interpolationEnd] ∧
      ReadsExpression lexer.rules .drop (printState "\"a#\x7bx\x7d\"") tokens t := by
  obtain ⟨lexer, tokens, t, hlexer, hclosed, hkinds, hoperator, hliteral⟩ :
      ∃ lexer tokens t, ofOptions {} .drop = .ok lexer ∧
        Leaves lexer.rules .drop [.print] (printState "\"a#\x7bx\x7d\"").openString tokens t ∧
        tokens.map (·.kind) = [.string, .interpolationStart, .name, .interpolationEnd] ∧
        lexer.rules.operator? (some ' ') (printState "\"a#\x7bx\x7d\"").rest = none ∧
        stringLiteral? (printState "\"a#\x7bx\x7d\"").rest = none := by
    refine ⟨_, _, _, rfl, .step (by decide) rfl rfl (.step (by decide) rfl rfl
      (.step (by decide) rfl rfl (.step (by decide) rfl rfl (.step (by decide) rfl rfl
        (.left rfl))))), rfl, rfl, rfl⟩
  have hagrees := (literal_readsExpression_iff (s := printState "\"a#\x7bx\x7d\"") (c := 'a') hlexer
    (by decide) (by decide) trivial rfl (by decide) hclosed).2.2
  refine ⟨lexer, tokens, t, hlexer, hclosed, hkinds, hagrees.2 ⟨hoperator, fun body hbody => ?_⟩⟩
  exact absurd (hliteral.symm.trans hbody) (by simp)

/-- Where interpolations begin with a dollar sign, one is passed over if the literal has no number
sign. -/
theorem not_literal_readsExpression_dollar :
    ∃ lexer tokens t, ofOptions { interpolation := ("$\x7b", "\x7d") } .drop = .ok lexer ∧
      Leaves lexer.rules .drop [.print] (printState "\"a$\x7bx\x7d\"").openString tokens t ∧
      tokens.map (·.kind) = [.string, .interpolationStart, .name, .interpolationEnd] ∧
      ¬ ReadsExpression lexer.rules .drop (printState "\"a$\x7bx\x7d\"") tokens t := by
  obtain ⟨lexer, tokens, t, hlexer, hclosed, hkinds, piece, u, hread, hnest, hpiece⟩ :
      ∃ lexer tokens t, ofOptions { interpolation := ("$\x7b", "\x7d") } .drop = .ok lexer ∧
        Leaves lexer.rules .drop [.print] (printState "\"a$\x7bx\x7d\"").openString tokens t ∧
        tokens.map (·.kind) = [.string, .interpolationStart, .name, .interpolationEnd] ∧
        ∃ token u, expressionStep lexer.rules (printState "\"a$\x7bx\x7d\"") = .ok ([token], u) ∧
          u.nesting = [.print] ∧ token.kind = .string := by
    refine ⟨_, _, _, rfl, .step (by decide) rfl rfl (.step (by decide) rfl rfl
      (.step (by decide) rfl rfl (.step (by decide) rfl rfl (.step (by decide) rfl rfl
        (.left rfl))))), rfl, _, _, rfl, rfl, rfl⟩
  refine ⟨lexer, tokens, t, hlexer, hclosed, hkinds, ?_⟩
  rintro ⟨first, v, more, hstep, hmore, rfl⟩
  obtain ⟨rfl, rfl⟩ := Prod.mk.inj (Except.ok.inj (hread.symm.trans hstep))
  obtain ⟨rfl, -⟩ := hmore.eq_of_nesting hnest
  simp at hkinds

end TemplateEngine.Lexer
