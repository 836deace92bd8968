import TemplateEngine.Proofs.Lexer.Gaps
import TemplateEngine.Proofs.Lexer.Verbatim

/-!
White space beside the trim marks. Main statements: under the default rules a tag between two texts
takes away what its marks trim, in front of an opening delimiter and behind a closing one; the two
sides take away the same texts except for a few characters of the mark for all white space.
-/

namespace TemplateEngine.Lexer

/-- Whether the closing delimiter of a tag takes along a line break when it has no mark. -/
def TagKind.takesBreak : TagKind → Bool
  | .print => false
  | .block | .comment => true

def TagKind.part : TagKind → Nesting
  | .print => .print
  | .block => .block
  | .comment => .comment

def TagKind.startKind : TagKind → TokenKind
  | .print => .varStart
  | .block | .comment => .blockStart

def TagKind.endKind : TagKind → TokenKind
  | .print => .varEnd
  | .block | .comment => .blockEnd

structure MarkedTag where
  kind : TagKind
  opening : Option Trim
  closing : Option Trim

namespace MarkedTag

def ending (tag : MarkedTag) : List Char :=
  Trim.mark tag.closing ++ (defaultRules.delimiters tag.kind).closing

def chars (tag : MarkedTag) : List Char :=
  (defaultRules.delimiters tag.kind).opening ++ Trim.mark tag.opening ++ ' ' :: 'x' :: ' ' ::
    tag.ending

def spelling (comments : Comments) (tag : MarkedTag) : List Spelling :=
  match tag.kind, comments with
  | .print, _ => [(.varStart, "\x7b\x7b"), (.name, "x"), (.varEnd, "\x7d\x7d")]
  | .block, _ => [(.blockStart, "\x7b%"), (.name, "x"), (.blockEnd, "%\x7d")]
  | .comment, .keep =>
    [(.blockStart, "\x7b#"), (.name, "comment"), (.text, " x "), (.blockEnd, "#\x7d")]
  | .comment, .drop => []

def trimBehind (tag : MarkedTag) (cs : List Char) : List Char :=
  if tag.kind.takesBreak ∨ tag.closing ≠ none then trimFront tag.closing cs else cs

variable {tag : MarkedTag} {s : State} {behind : List Char}

theorem tagStart?_chars (tag : MarkedTag) (behind : List Char) (offset : Nat) :
    defaultRules.tagStart? offset (tag.chars ++ behind) =
      some ⟨offset, 2 + (Trim.mark tag.opening).length, tag.kind, tag.opening⟩ := by
  obtain ⟨kind, opening, closing⟩ := tag
  rcases opening with _ | _ | _ <;> cases kind <;> rfl

theorem exists_cons_chars (tag : MarkedTag) : ∃ cs, tag.chars = '\x7b' :: cs := by
  obtain ⟨kind, opening, closing⟩ := tag
  cases kind <;> exact ⟨_, rfl⟩

theorem length_opening : (defaultRules.delimiters tag.kind).opening.length = 2 := by
  obtain ⟨kind, opening, closing⟩ := tag
  cases kind <;> rfl

/-- A closing delimiter with its mark takes along what the mark trims. -/
theorem exists_closing {d e : Char} (hd : d ≠ '-' ∧ d ≠ '~') (takesBreak : Bool)
    (mark : Option Trim) (cs : List Char) :
    ∃ n, (defaultRules.closing [d, e] takesBreak).length? (Trim.mark mark ++ d :: e :: cs) =
        some n ∧
      (Trim.mark mark ++ d :: e :: cs).drop n =
        if takesBreak ∨ mark ≠ none then trimFront mark cs else cs := by
  unfold Rules.closing
  simp only [Pattern.length?_orElse, Pattern.length?_literal_andThen, Pattern.length?_run]
  match mark with
  | some .all =>
    refine ⟨3 + (cs.takeWhile Text.isBlank).length, by simp [Trim.mark, defaultRules], ?_⟩
    rw [← List.drop_drop, if_pos (.inr (by simp))]
    exact drop_length_takeWhile _ cs
  | some .line =>
    refine ⟨3 + (cs.takeWhile isLineBlank).length, by simp [Trim.mark, defaultRules], ?_⟩
    rw [← List.drop_drop, if_pos (.inr (by simp))]
    refine (drop_length_takeWhile _ cs).trans ?_
    rw [isLineBlank_eq_contains]
    rfl
  | none =>
    cases takesBreak with
    | false =>
      refine ⟨2, ?_, rfl⟩
      simp [Trim.mark, defaultRules, hd.1.symm, hd.2.symm, Pattern.length?, Pattern.literal]
    | true =>
      refine ⟨2 + if ['\n'].isPrefixOf cs then 1 else 0, ?_, ?_⟩
      · simp [Trim.mark, defaultRules, hd.1.symm, hd.2.symm, Pattern.length?, Pattern.literal,
          Pattern.optional, Pattern.orElse, Pattern.andThen]
        split <;> simp
      · rw [← List.drop_drop, if_pos (Or.inl rfl)]
        exact drop_break cs

theorem exists_ending (tag : MarkedTag) (behind : List Char) :
    ∃ n, (defaultRules.closing (defaultRules.delimiters tag.kind).closing
        tag.kind.takesBreak).length? (tag.ending ++ behind) = some n ∧
      (tag.ending ++ behind).drop n = tag.trimBehind behind := by
  obtain ⟨kind, opening, closing⟩ := tag
  have hchars (d e : Char) : Trim.mark closing ++ [d, e] ++ behind =
      Trim.mark closing ++ d :: e :: behind := by simp
  cases kind <;>
  · simp only [ending, trimBehind, TagKind.takesBreak, Rules.delimiters, defaultRules, hchars]
    exact exists_closing (by decide) _ closing behind

theorem exists_cons_ending (tag : MarkedTag) :
    ∃ c cs, tag.ending = c :: cs ∧ Text.isBlank c = false := by
  obtain ⟨kind, opening, closing⟩ := tag
  rcases closing with _ | _ | _ <;> cases kind <;> exact ⟨_, _, rfl, by decide⟩

/-- The end of a tag with white space in front of it. -/
theorem exists_space_ending (tag : MarkedTag) (behind : List Char) :
    ∃ n, (Pattern.andThen (.run Text.isBlank) (defaultRules.closing
        (defaultRules.delimiters tag.kind).closing tag.kind.takesBreak)).length?
          (' ' :: (tag.ending ++ behind)) = some n ∧
      (' ' :: (tag.ending ++ behind)).drop n = tag.trimBehind behind := by
  obtain ⟨n, hn, hdrop⟩ := exists_ending tag behind
  obtain ⟨c, cs, hending, hblank⟩ := exists_cons_ending tag
  refine ⟨1 + n, ?_, ?_⟩
  · rw [hending, List.cons_append] at hn ⊢
    exact Pattern.length?_space_andThen hblank hn
  · rw [Nat.add_comm, List.drop_succ_cons, hdrop]

theorem isName_x : IsName "x" :=
  ⟨⟨'x', [], rfl, by decide, by decide⟩, by decide⟩

structure Within (tag : MarkedTag) (s : State) : Prop where
  kind : tag.kind ≠ .comment
  nesting : s.nesting = [tag.kind.part]
  brackets : s.brackets = []

theorem Within.inTag (h : tag.Within s) : InTag s.nesting ∧ ReadsExpressions s.nesting := by
  rw [h.nesting]
  cases hkind : tag.kind with
  | comment => exact absurd hkind h.kind
  | print => exact ⟨trivial, trivial⟩
  | block => exact ⟨trivial, trivial⟩

/-- Inside a tag one step reads the name. -/
theorem reaches_x {comments : Comments} (h : tag.Within s)
    (hrest : s.rest = ' ' :: 'x' :: ' ' :: behind) :
    ∃ t ts, Reaches defaultRules comments s ts t ∧ t.rest = ' ' :: behind ∧ tag.Within t ∧
      ts.map Token.spelling = [(.name, "x")] := by
  have hstep := step_of_gap comments h.inTag.1 h.inTag.2 isGap_space (c := 'x') (by decide)
    (by decide) hrest
  have hname : (s.advance [' '].length).rest = "x".toList ++ ' ' :: behind := by
    rw [State.rest_advance, hrest]
    rfl
  rw [wordStep_name isName_x (by decide) hname] at hstep
  refine ⟨_, _, .single (isDone_eq_false (by simp [hrest])) hstep, ?_,
    ⟨h.kind, h.nesting, h.brackets⟩, rfl⟩
  rw [State.advance_advance, State.rest_advance, hrest]
  rfl

/-- Where no bracket is open the step in front of the end of a tag takes it. -/
theorem partStep_ending (h : tag.Within s) {n : Nat}
    (hn : (Pattern.andThen (.run Text.isBlank) (defaultRules.closing
      (defaultRules.delimiters tag.kind).closing tag.kind.takesBreak)).length? s.rest = some n) :
    partStep defaultRules s =
      .ok ([s.token tag.kind.endKind (defaultRules.delimiters tag.kind).closing],
        (s.advance n).leave) := by
  have hclose {close : Pattern} (hlength : close.length? s.rest = some n) (kind : TokenKind)
      (closing : List Char) : closeOrExpression defaultRules close kind closing s =
        .ok ([s.token kind closing], (s.advance n).leave) := by
    simp only [closeOrExpression, h.brackets, List.isEmpty_nil, if_true, hlength]
  have hnest := h.nesting
  cases hkind : tag.kind with
  | comment => exact absurd hkind h.kind
  | print =>
    rw [hkind] at hn hnest
    rw [partStep, hnest]
    exact congrArg (Except.mapError _) (hclose hn _ _)
  | block =>
    rw [hkind] at hn hnest
    rw [partStep, hnest]
    exact congrArg (Except.mapError _) (hclose hn _ _)

theorem reaches_ending {comments : Comments} (h : tag.Within s)
    (hrest : s.rest = ' ' :: (tag.ending ++ behind)) :
    ∃ t ts, Reaches defaultRules comments s ts t ∧ t.rest = tag.trimBehind behind ∧
      t.nesting = [] ∧ t.brackets = [] ∧
      ts.map Token.spelling =
        [(tag.kind.endKind, String.ofList (defaultRules.delimiters tag.kind).closing)] := by
  obtain ⟨n, hn, hdrop⟩ := exists_space_ending tag behind
  rw [← hrest] at hn hdrop
  have hstep : step defaultRules comments s = .ok (_, (s.advance n).leave) :=
    (step_of_inTag h.inTag.1 comments).trans (partStep_ending h hn)
  exact ⟨_, _, .single (isDone_eq_false (by simp [hrest])) hstep, hdrop,
    by simp [State.leave, h.nesting], h.brackets, rfl⟩

/-- In front of a tag the text is trimmed, and the lexer goes on behind the opening delimiter. -/
theorem exists_dataStep {text : List Char} (htext : NoOpening text)
    (hend : text.getLast? ≠ some '\x7b') (hrest : s.rest = text ++ (tag.chars ++ behind))
    (hahead : Scanned s) :
    ∃ u, (∀ search, dataStep defaultRules search s =
        (tagStep defaultRules search tag.kind u).map
          (DataPiece.after (s.textTokens (trimBack tag.opening text)))) ∧
      u.rest = ' ' :: 'x' :: ' ' :: (tag.ending ++ behind) ∧ u.nesting = s.nesting ∧
      u.brackets = s.brackets := by
  obtain ⟨later, hlater⟩ : ∃ later, s.tagsAhead = ⟨s.offset + text.length,
      2 + (Trim.mark tag.opening).length, tag.kind, tag.opening⟩ :: later := by
    have hstart := tagStart?_chars tag behind (s.offset + text.length)
    obtain ⟨cs, hcs⟩ := exists_cons_chars tag
    rw [hahead, hrest, tagStartsFrom_text htext (.inl hend)]
    rw [hcs, List.cons_append] at hstart ⊢
    rw [Rules.tagStartsFrom, hstart]
    exact ⟨_, rfl⟩
  have htake : s.rest.take text.length = text := by rw [hrest, List.take_left]
  rw [State.tagsAhead] at hlater
  refine ⟨{ s.advance (text.length + (2 + (Trim.mark tag.opening).length)) with tags := later },
    fun search => ?_, ?_, rfl, rfl⟩
  · unfold dataStep
    rw [hlater]
    simp only [Nat.add_sub_cancel_left, trimBefore_eq_trimBack, htake]
  · have hlength : ((defaultRules.delimiters tag.kind).opening ++ Trim.mark tag.opening).length =
        2 + (Trim.mark tag.opening).length := by
      rw [List.length_append, length_opening]
    show (s.advance _).rest = _
    rw [State.rest_advance, hrest, ← List.drop_drop, List.drop_left, chars, List.append_assoc,
      ← hlength, List.drop_left]
    rfl

theorem wordTag_eq_none (cs : List Char) :
    (defaultRules.wordTag "verbatim").length? (' ' :: 'x' :: cs) = none := by
  refine IsGap.length?_andThen isGap_space (c := 'x') (by decide) fun d ds hd => ?_
  have hne : 'v' ≠ d := by
    rintro rfl
    revert hd
    decide
  have hliteral : Pattern.literal "verbatim".toList (d :: ds) = [] := literal_of_ne hne
  rw [Pattern.andThen, hliteral]
  rfl

def written (tag : MarkedTag) : WrittenComment :=
  ⟨tag.opening, [' ', 'x', ' '], tag.closing⟩

theorem readable_written (tag : MarkedTag) : tag.written.Readable where
  body := by
    show ¬ ['#', '\x7d'] <:+: [' ', 'x', ' ']
    decide
  opening _ := by simp [written]
  closing _ := by simp [written]

variable {comments : Comments} {text : List Char}

section

variable (htext : NoOpening text) (hend : text.getLast? ≠ some '\x7b')
  (hrest : s.rest = text ++ (tag.chars ++ behind)) (hahead : Scanned s) (hnest : s.nesting = [])
  (hbrackets : s.brackets = [])
include htext hend hrest hahead hnest hbrackets

omit hrest hahead hbrackets htext hend in
/-- A piece of text that is read alike whether comments are kept or not. -/
theorem step_of_dataStep {piece : Piece}
    (h : ∀ search, dataStep defaultRules search s = .ok (.lexed piece)) :
    step defaultRules comments s = .ok piece := by
  cases comments with
  | keep => simp only [step, keepStep, hnest, h armedSearch]
  | drop => simp only [step, dropStep, hnest, h (realSearch defaultRules)]

omit htext hend hahead hnest hbrackets in
theorem rest_ne_nil : s.rest ≠ [] := by
  obtain ⟨cs, hcs⟩ := exists_cons_chars tag
  simp [hrest, hcs]

/-- One step leads over the text in front of a tag and into it. -/
theorem reaches_opening (hkind : tag.kind ≠ .comment) :
    ∃ t ts, Reaches defaultRules comments s ts t ∧
      t.rest = ' ' :: 'x' :: ' ' :: (tag.ending ++ behind) ∧ tag.Within t ∧
      ts.map Token.spelling = textSpelling (trimBack tag.opening text) ++
        [(tag.kind.startKind, String.ofList (defaultRules.delimiters tag.kind).opening)] := by
  obtain ⟨u, hdata, hurest, hunest, hubrackets⟩ := exists_dataStep htext hend hrest hahead
  have htag (search : EndSearch) : tagStep defaultRules search tag.kind u =
      .ok (.lexed ([u.token tag.kind.startKind (defaultRules.delimiters tag.kind).opening],
        { u.enter tag.kind.part with tagLine := u.line })) := by
    cases hk : tag.kind with
    | comment => exact absurd hk hkind
    | print => rfl
    | block =>
      rw [tagStep, hurest, wordTag_eq_none]
      rfl
  simp only [htag, Except.map, DataPiece.after] at hdata
  have hwithin : tag.Within { u.enter tag.kind.part with tagLine := u.line } :=
    ⟨hkind, congrArg (tag.kind.part :: ·) (hunest.trans hnest), hubrackets.trans hbrackets⟩
  refine ⟨_, _, .single (isDone_eq_false (rest_ne_nil hrest)) (step_of_dataStep hnest hdata),
    hurest, hwithin, ?_⟩
  rw [List.map_append, map_spelling_textTokens]
  rfl

/-- A comment is passed over in one step, or kept in two. -/
theorem reaches_comment_x (hkind : tag.kind = .comment) :
    ∃ t ts, Reaches defaultRules comments s ts t ∧ t.rest = tag.trimBehind behind ∧
      t.nesting = [] ∧ t.brackets = [] ∧
      ts.map Token.spelling =
        textSpelling (trimBack tag.opening text) ++ tag.spelling comments := by
  obtain ⟨u, hdata, hurest, hunest, hubrackets⟩ := exists_dataStep htext hend hrest hahead
  obtain ⟨kind, opening, closing⟩ := tag
  subst hkind
  have hchars : MarkedTag.chars ⟨.comment, opening, closing⟩ =
      (written ⟨.comment, opening, closing⟩).chars := by
    simp [chars, ending, written, WrittenComment.chars, WrittenComment.inside, Rules.delimiters,
      defaultRules]
  have hreadable := readable_written ⟨.comment, opening, closing⟩
  cases comments with
  | drop =>
    obtain ⟨n, hsearch, hdrop⟩ := exists_realSearch hreadable behind
    have hinside : u.rest = (written ⟨.comment, opening, closing⟩).inside ++ behind := by
      simp [hurest, written, WrittenComment.inside, ending, Rules.delimiters, defaultRules]
    rw [← hinside] at hsearch hdrop
    have hreal := hdata (realSearch defaultRules)
    simp only [tagStep, hsearch, Except.map, DataPiece.after, List.append_nil] at hreal
    have hstep : step defaultRules .drop s =
        .ok (s.textTokens (trimBack opening text), u.advance (3 + n)) := by
      simp only [step, dropStep, hnest, hreal]
      rfl
    refine ⟨_, _, .single (isDone_eq_false (rest_ne_nil hrest)) hstep, hdrop, ?_, ?_, ?_⟩
    · rw [State.nesting_advance, hunest, hnest]
    · rw [State.brackets_advance, hubrackets, hbrackets]
    · rw [map_spelling_textTokens]
      exact (List.append_nil _).symm
  | keep =>
    rw [hchars] at hrest
    obtain ⟨ts, t, hts, htrest, htnest, htbrackets, hspelling⟩ :=
      reaches_comment hreadable htext hend hrest hnest hahead
    exact ⟨t, ts, hts, htrest, htnest, htbrackets.trans hbrackets, hspelling⟩

/-- The tokens of a tag and of the text in front of it. -/
theorem reaches_tag :
    ∃ t ts, Reaches defaultRules comments s ts t ∧ t.rest = tag.trimBehind behind ∧
      t.nesting = [] ∧ t.brackets = [] ∧
      ts.map Token.spelling =
        textSpelling (trimBack tag.opening text) ++ tag.spelling comments := by
  by_cases hkind : tag.kind = .comment
  · exact reaches_comment_x htext hend hrest hahead hnest hbrackets hkind
  obtain ⟨t, ts, hts, htrest, ht, hopening⟩ :=
    reaches_opening htext hend hrest hahead hnest hbrackets hkind
  obtain ⟨u, us, hus, hurest, hu, hname⟩ := reaches_x ht htrest
  obtain ⟨v, vs, hvs, hvrest, hvnest, hvbrackets, hclosing⟩ :=
    reaches_ending hu hurest
  refine ⟨v, ts ++ (us ++ vs), hts.trans (hus.trans hvs), hvrest, hvnest, hvbrackets, ?_⟩
  rw [List.map_append, List.map_append, hopening, hname, hclosing, List.append_assoc]
  obtain ⟨kind, opening, closing⟩ := tag
  cases kind with
  | comment => exact absurd rfl hkind
  | print => rfl
  | block => rfl

end

/-- A template of a tag between two texts without opening braces is read into its trimmed texts and
the tokens of the tag. -/
theorem tokenize_chars {lexer : Lexer} (hlexer : ofOptions {} comments = .ok lexer)
    (tag : MarkedTag) (htext : '\x7b' ∉ text) (hbehind : '\x7b' ∉ behind)
    (hbreaks : '\r' ∉ text ++ behind) (name : String) :
    ∃ stream, lexer.tokenize ⟨name, String.ofList (text ++ (tag.chars ++ behind))⟩ = .ok stream ∧
      stream.tokens.map Token.spelling = textSpelling (trimBack tag.opening text) ++
        tag.spelling comments ++ textSpelling (tag.trimBehind behind) ++ [(.eof, "")] := by
  obtain ⟨r, hr, rfl⟩ := ofOptions_eq_ok.1 hlexer
  obtain rfl := Option.some.inj (ofOptions?_default.symm.trans hr)
  have hno {cs : List Char} (h : '\x7b' ∉ cs) : NoOpening cs :=
    fun c _ hwithin => h (hwithin.subset (List.mem_cons_self ..))
  have htrim : NoOpening (tag.trimBehind behind) := by
    unfold trimBehind
    split
    · exact hno fun hmem => hbehind ((trimFront_isSuffix _ _).subset hmem)
    · exact hno hbehind
  have hstart : Reaches defaultRules comments
      (.start defaultRules (text ++ (tag.chars ++ behind))) [] _ := .refl _
  obtain ⟨t, ts, hts, htrest, htnest, htbrackets, htspelling⟩ := reaches_tag (hno htext)
    (fun hlast => htext (List.mem_of_getLast? hlast)) rfl (tagsAhead_of_reaches hstart rfl) rfl rfl
  obtain ⟨us, u, hus, hdone, hunest, hubrackets, huspelling⟩ :=
    reaches_text htrim htrest htnest (tagsAhead_of_reaches hts htnest)
  have hfinish : finish u = .ok (u.token .eof []) := by
    unfold finish
    rw [hubrackets, htbrackets, hunest]
  have htokens : Lexer.tokens ⟨defaultRules, comments⟩ (text ++ (tag.chars ++ behind)) = .ok _ :=
    tokens_eq_ok.2 ⟨ts ++ us, u, _, hts.trans hus, hdone, hfinish, rfl⟩
  have hunified : '\r' ∉ text ++ (tag.chars ++ behind) := by
    have htag : '\r' ∉ tag.chars := by
      obtain ⟨kind, opening, closing⟩ := tag
      rcases opening with _ | _ | _ <;> rcases closing with _ | _ | _ <;> cases kind <;> decide
    rw [List.mem_append, not_or] at hbreaks
    simp only [List.mem_append, not_or]
    exact ⟨hbreaks.1, htag, hbreaks.2⟩
  refine ⟨.ofTokens (ts ++ us ++ [u.token .eof []]) name, ?_, ?_⟩
  · rw [tokenize_eq_bind, String.toList_ofList, unifyBreaks_eq_self hunified, htokens]
    rfl
  · rw [TokenStream.tokens_ofTokens, TokenStream.closeList_append_eof _ rfl, List.map_append,
      List.map_append, htspelling, huspelling]
    rfl

end MarkedTag

/-- Whether a template begins with just the text `a`, where `w` stands between it and a tag with the
mark beside its opening delimiter. -/
def TrimmedBefore (lexer : Lexer) (name : String) (kind : TagKind) (mark : Trim) (w : List Char) :
    Prop :=
  ∃ stream, lexer.tokenize
      ⟨name, String.ofList ('a' :: w ++ MarkedTag.chars ⟨kind, some mark, none⟩)⟩ = .ok stream ∧
    stream.tokens.head?.map Token.spelling = some (.text, "a")

/-- Whether a template ends with just the text `a`, where `w` stands between it and a tag with the
mark beside its closing delimiter. -/
def TrimmedBehind (lexer : Lexer) (name : String) (kind : TagKind) (mark : Trim) (w : List Char) :
    Prop :=
  ∃ stream, lexer.tokenize
      ⟨name, String.ofList (MarkedTag.chars ⟨kind, none, some mark⟩ ++ (w ++ ['a']))⟩ =
        .ok stream ∧
    stream.tokens.dropLast.getLast?.map Token.spelling = some (.text, "a")

def Trim.dropsBehind : Trim → Char → Bool
  | .all => Text.isBlank
  | .line => isLineBlank

section

variable {comments : Comments} {lexer : Lexer} (hlexer : ofOptions {} comments = .ok lexer)
  (name : String) (kind : TagKind) (mark : Trim) {w : List Char}

theorem dropWhile_concat_ne_nil {p : Char → Bool} {a : Char} (ha : p a = false) :
    (w ++ [a]).dropWhile p ≠ [] := by
  simp [List.dropWhile_eq_nil_iff, ha]

theorem dropWhile_concat_eq_singleton {p : Char → Bool} {a : Char} (ha : p a = false) :
    (w ++ [a]).dropWhile p = [a] ↔ ∀ c ∈ w, p c = true := by
  induction w with
  | nil => simp [ha]
  | cons c w ih =>
    rw [List.forall_mem_cons, ← ih]
    by_cases hc : p c = true
    · simp [hc]
    · simp [hc]

theorem trimBack_cons :
    trimBack (some mark) ('a' :: w) = ((w.reverse ++ ['a']).dropWhile mark.drops).reverse := by
  rw [← trimBefore_eq_trimBack, trimBefore, trimEnd_eq_rdropWhile, List.rdropWhile,
    List.reverse_cons]

theorem trimFront_eq_dropWhile (cs : List Char) :
    trimFront (some mark) cs = cs.dropWhile mark.dropsBehind := by
  cases mark with
  | all => rfl
  | line => rw [trimFront, ← isLineBlank_eq_contains, Trim.dropsBehind]

theorem textSpelling_of_ne_nil {cs : List Char} (h : cs ≠ []) :
    textSpelling cs = [(.text, String.ofList cs)] := by
  simp [textSpelling, h]

theorem spelling_eq_a {cs : List Char} :
    some ((TokenKind.text, String.ofList cs) : Spelling) = some (.text, "a") ↔ cs = ['a'] := by
  have ha : "a" = String.ofList ['a'] := rfl
  rw [ha, Option.some_inj, Prod.mk.injEq, String.ofList_inj]
  simp

include hlexer

/-- In front of a tag a mark takes away all of a text exactly if it drops every character. -/
theorem trimmedBefore_iff (hopening : '\x7b' ∉ w) (hbreaks : '\r' ∉ w) :
    TrimmedBefore lexer name kind mark w ↔ ∀ c ∈ w, mark.drops c = true := by
  have ha : mark.drops 'a' = false := by cases mark <;> decide
  have htext : '\x7b' ∉ 'a' :: w := by simp [hopening]
  have hnil : '\x7b' ∉ [] := List.not_mem_nil
  obtain ⟨stream, hstream, htokens⟩ := MarkedTag.tokenize_chars hlexer ⟨kind, some mark, none⟩
    htext hnil (by simp [hbreaks]) name
  rw [List.append_nil] at hstream
  have hne : trimBack (some mark) ('a' :: w) ≠ [] := by
    rw [trimBack_cons, ne_eq, List.reverse_eq_nil_iff]
    exact dropWhile_concat_ne_nil ha
  have hhead : stream.tokens.head?.map Token.spelling =
      some (.text, String.ofList (trimBack (some mark) ('a' :: w))) := by
    rw [← List.head?_map, htokens, textSpelling_of_ne_nil hne]
    rfl
  calc TrimmedBefore lexer name kind mark w
      ↔ trimBack (some mark) ('a' :: w) = ['a'] := by
        rw [← spelling_eq_a, ← hhead]
        constructor
        · rintro ⟨stream', hstream', h⟩
          obtain rfl := Except.ok.inj (hstream'.symm.trans hstream)
          exact h
        · exact fun h => ⟨stream, hstream, h⟩
    _ ↔ ∀ c ∈ w, mark.drops c = true := by
        rw [trimBack_cons, List.reverse_eq_iff, List.reverse_singleton,
          dropWhile_concat_eq_singleton ha]
        simp only [List.mem_reverse]

/-- Behind a tag a mark takes away all of a text exactly if every character is of its class. -/
theorem trimmedBehind_iff (hopening : '\x7b' ∉ w) (hbreaks : '\r' ∉ w) :
    TrimmedBehind lexer name kind mark w ↔ ∀ c ∈ w, mark.dropsBehind c = true := by
  have ha : mark.dropsBehind 'a' = false := by cases mark <;> decide
  have hbehind : '\x7b' ∉ w ++ ['a'] := by simp [hopening]
  have hnil : '\x7b' ∉ [] := List.not_mem_nil
  obtain ⟨stream, hstream, htokens⟩ := MarkedTag.tokenize_chars hlexer ⟨kind, none, some mark⟩
    hnil hbehind (by simp [hbreaks]) name
  rw [List.nil_append] at hstream
  have htrim : MarkedTag.trimBehind ⟨kind, none, some mark⟩ (w ++ ['a']) =
      (w ++ ['a']).dropWhile mark.dropsBehind := by
    rw [MarkedTag.trimBehind, if_pos (.inr (by simp)), trimFront_eq_dropWhile]
  have hlast : stream.tokens.dropLast.getLast?.map Token.spelling =
      some (.text, String.ofList ((w ++ ['a']).dropWhile mark.dropsBehind)) := by
    rw [← List.getLast?_map, List.map_dropLast, htokens, List.dropLast_concat, htrim,
      textSpelling_of_ne_nil (dropWhile_concat_ne_nil ha), List.getLast?_concat]
  calc TrimmedBehind lexer name kind mark w
      ↔ (w ++ ['a']).dropWhile mark.dropsBehind = ['a'] := by
        rw [← spelling_eq_a, ← hlast]
        constructor
        · rintro ⟨stream', hstream', h⟩
          obtain rfl := Except.ok.inj (hstream'.symm.trans hstream)
          exact h
        · exact fun h => ⟨stream, hstream, h⟩
    _ ↔ ∀ c ∈ w, mark.dropsBehind c = true := dropWhile_concat_eq_singleton ha

/-- Both sides of a tag take away the same texts with the mark within a line. With the mark for all
white space they differ on null characters, which only the front of a tag takes away, and on the
white space beyond spaces, tabs, line feeds and vertical tabs, which only its back takes away. -/
theorem trimmedBefore_iff_trimmedBehind_iff (hopening : '\x7b' ∉ w) (hbreaks : '\r' ∉ w) :
    (TrimmedBefore lexer name kind mark w ↔ TrimmedBehind lexer name kind mark w) ↔
      (mark = .all →
        ¬ ((∀ c ∈ w, c ∈ [' ', '\t', '\n', '\x0B', '\x00']) ∧ '\x00' ∈ w) ∧
        ¬ ((∀ c ∈ w, Text.isBlank c = true) ∧ ∃ c ∈ w, c ∉ [' ', '\t', '\n', '\x0B'])) := by
  rw [trimmedBefore_iff hlexer name kind mark hopening hbreaks,
    trimmedBehind_iff hlexer name kind mark hopening hbreaks]
  cases mark with
  | line => simp [Trim.drops, Trim.dropsBehind]
  | all =>
    have hnull : Text.isBlank '\x00' = false := by decide
    have hshared : ∀ c ∈ [' ', '\t', '\n', '\x0B'], Text.isBlank c = true := by
      simp only [List.forall_mem_cons, List.not_mem_nil, false_implies, implies_true, and_true]
      decide
    have hlist : (∀ c ∈ w, Trim.all.drops c = true) ↔
        ∀ c ∈ w, c ∈ [' ', '\t', '\n', '\x0B'] ∨ c = '\x00' := by
      refine forall₂_congr fun c hc => ?_
      have hne : c ≠ '\r' := fun h => hbreaks (h ▸ hc)
      simp only [Trim.drops, isLineBlank, Bool.or_eq_true, beq_iff_eq, List.mem_cons,
        List.not_mem_nil, or_false, hne]
      grind
    have hmem (c : Char) : c ∈ [' ', '\t', '\n', '\x0B', '\x00'] ↔
        c ∈ [' ', '\t', '\n', '\x0B'] ∨ c = '\x00' := by
      simp only [List.mem_cons, or_assoc, List.not_mem_nil, or_false]
    simp only [hmem, hlist, Trim.dropsBehind, forall_const]
    generalize [' ', '\t', '\n', '\x0B'] = shared at hshared
    constructor
    · intro halike
      constructor
      · rintro ⟨hbefore, hw⟩
        exact absurd (halike.1 hbefore _ hw) (by simp [hnull])
      · rintro ⟨hbehind, c, hw, hc⟩
        obtain rfl := (halike.2 hbehind c hw).resolve_left hc
        exact absurd (hbehind _ hw) (by simp [hnull])
    · rintro ⟨hno, hno'⟩
      constructor
      · intro hbefore c hc
        exact hshared c ((hbefore c hc).resolve_right fun h => hno ⟨hbefore, h ▸ hc⟩)
      · exact fun hbehind c hc => .inl (by_contra fun h => hno' ⟨hbehind, c, hc, h⟩)

end

/-- Line feeds and spaces are taken away on both sides of a comment. -/
theorem trimmedBefore_iff_trimmedBehind_break :
    ∃ lexer, ofOptions {} .keep = .ok lexer ∧ '\x7b' ∉ ['\n', ' '] ∧ '\r' ∉ ['\n', ' '] ∧
      (TrimmedBefore lexer "page" .comment .all ['\n', ' '] ↔
        TrimmedBehind lexer "page" .comment .all ['\n', ' ']) := by
  obtain ⟨lexer, hlexer⟩ : ∃ lexer, ofOptions {} .keep = .ok lexer := ⟨_, rfl⟩
  refine ⟨lexer, hlexer, by decide, by decide, ?_⟩
  refine (trimmedBefore_iff_trimmedBehind_iff hlexer "page" .comment .all (by decide)
    (by decide)).2 fun _ => ?_
  simp only [List.forall_mem_cons, List.exists_mem_cons_iff, List.not_mem_nil, false_implies,
    implies_true, false_and, exists_false, or_false, and_true]
  decide

/-- A null character is taken away in front of a print tag and not behind it, and a form feed behind
it and not in front. -/
theorem not_trimmedBefore_iff_trimmedBehind_null :
    ∃ lexer, ofOptions {} .keep = .ok lexer ∧
      (TrimmedBefore lexer "page" .print .all ['\x00'] ∧
        ¬ TrimmedBehind lexer "page" .print .all ['\x00']) ∧
      ¬ TrimmedBefore lexer "page" .print .all ['\x0C'] ∧
        TrimmedBehind lexer "page" .print .all ['\x0C'] := by
  obtain ⟨lexer, hlexer⟩ : ∃ lexer, ofOptions {} .keep = .ok lexer := ⟨_, rfl⟩
  refine ⟨lexer, hlexer, ?_⟩
  rw [trimmedBefore_iff hlexer "page" .print .all (by decide) (by decide),
    trimmedBefore_iff hlexer "page" .print .all (by decide) (by decide),
    trimmedBehind_iff hlexer "page" .print .all (by decide) (by decide),
    trimmedBehind_iff hlexer "page" .print .all (by decide) (by decide)]
  simp only [List.forall_mem_singleton]
  decide

end TemplateEngine.Lexer
