import TemplateEngine.Proofs.Lexer.Gaps
import TemplateEngine.Proofs.Lexer.Places

/-!
Word operators. Main statement: under the default settings, where a lexer stands in an expression in
front of a word operator, the next token is the operator exactly if the character in front of the
word is white space or one of a few brackets, and a name otherwise. White space in front of the word
changes nothing in what is read as long as it does not change which of the two it is.
-/

namespace TemplateEngine.Lexer

def GoesOnWithIn (cs : List Char) : Prop :=
  ∃ gap more, gap ≠ [] ∧ IsGap gap ∧ cs = gap ++ 'i' :: 'n' :: more ∧
    more.head?.any isBoundary = true

/-- The spellings of the word operators in front of a text. There may be any white space within
`not in`, and `not` stands only where the text does not go on with `in`. -/
inductive SpellsWord : String → List Char → List Char → Prop
  | word {value : String} {behind : List Char} (h : value ∈ ["or", "and", "in"]) :
      SpellsWord value value.toList behind
  | not {behind : List Char} (h : ¬ GoesOnWithIn behind) : SpellsWord "not" ['n', 'o', 't'] behind
  | notIn {gap behind : List Char} (hgap : IsGap gap) (hne : gap ≠ []) :
      SpellsWord "not in" (['n', 'o', 't'] ++ gap ++ ['i', 'n']) behind

variable {previous : Option Char} {c : Char} {cs behind chars : List Char} {value : String}
  {operator : Operator} {n : Nat}

theorem SpellsWord.exists_cons (h : SpellsWord value chars behind) :
    ∃ c cs, chars = c :: cs ∧ isIdentifierStart c = true := by
  cases h with
  | word h =>
    have hall : ∀ value ∈ ["or", "and", "in"], value.toList.head?.any isIdentifierStart = true :=
      forall_mem_of_all (by decide)
    have := hall value h
    cases hcs : value.toList with
    | nil => simp [hcs] at this
    | cons c cs => exact ⟨c, cs, rfl, by simpa [hcs] using this⟩
  | not => exact ⟨'n', _, rfl, by decide⟩
  | notIn => exact ⟨'n', _, rfl, by decide⟩

/-- The operator at the front is the first one that matches. -/
theorem operator?_eq_some {i : Nat} (hi : defaultRules.operators[i]? = some operator)
    (hfront : ∀ other ∈ defaultRules.operators.take i,
      other.words.head?.bind List.head? ≠ some c)
    (hlength : operator.length? previous (c :: cs) = some n) :
    defaultRules.operator? previous (c :: cs) = some (operator, n) := by
  obtain ⟨hlt, hget⟩ := List.getElem?_eq_some_iff.1 hi
  have hsplit : defaultRules.operators =
      defaultRules.operators.take i ++ operator :: defaultRules.operators.drop (i + 1) := by
    rw [← hget, ← List.drop_eq_getElem_cons hlt, List.take_append_drop]
  have hnone : (defaultRules.operators.take i).findSome? (fun operator =>
      (operator.length? previous (c :: cs)).map fun n => (operator, n)) = none := by
    rw [List.findSome?_eq_none_iff]
    intro other hmem
    rw [length?_of_head (hfront other hmem)]
    rfl
  rw [Rules.operator?, hsplit, List.findSome?_append, hnone, List.findSome?_cons, hlength]
  rfl

/-- Behind a character that is no boundary no word operator matches. -/
theorem operator?_of_not_boundary (hprevious : previous.all isBoundary = false)
    (hc : c ∉ operatorSigns) : defaultRules.operator? previous (c :: cs) = none := by
  apply operator?_eq_none
  intro operator hoperator
  cases hoperator with
  | sign hd =>
    apply length?_signOperator
    rintro rfl
    exact hc hd
  | word hword =>
    obtain ⟨d, rfl, hd⟩ : ∃ d, previous = some d ∧ isBoundary d = false := by
      cases previous with
      | none => cases hprevious
      | some d => exact ⟨d, rfl, hprevious⟩
    unfold Operator.length?
    split
    · rfl
    · rw [if_pos (by simp [wordOperator, hd])]

/-- A word operator with boundaries around it. -/
theorem length?_wordOperator_eq_some {d : Char} {ds : List Char} {words : List (List Char)}
    {hwords : [] ∉ words} (hlength : wordsLength? ((d :: ds) :: words) cs = some n)
    (hprevious : previous.all isBoundary = true)
    (hbehind : (cs.drop n).head?.any isBoundary = true) :
    (wordOperator d ds words hwords).length? previous cs = some n := by
  have hstart : previous.any (!isBoundary ·) = false := by
    cases previous with
    | none => rfl
    | some d => simpa using hprevious
  unfold Operator.length?
  simp only [wordOperator, hlength, hstart, hbehind, Bool.and_false, Bool.not_true,
    Bool.false_eq_true, if_false]

theorem wordsLength?_two {first second gap : List Char} (hgap : IsGap gap) (hne : gap ≠ [])
    {d : Char} {ds : List Char} (hsecond : second = d :: ds) (hd : Text.isBlank d = false) :
    wordsLength? [first, second] (first ++ gap ++ second ++ behind) =
      some (first ++ gap ++ second).length := by
  have hfront : first.isPrefixOf (first ++ (gap ++ (second ++ behind))) = true :=
    List.isPrefixOf_iff_prefix.2 (List.prefix_append ..)
  have htake : (gap ++ (second ++ behind)).takeWhile Text.isBlank = gap := by
    rw [hsecond]
    exact hgap.takeWhile hd
  have hpos : gap.length ≠ 0 := by simpa using hne
  have hdrop : (first ++ (gap ++ (second ++ behind))).drop (first.length + gap.length) =
      second ++ behind := by
    rw [← List.append_assoc, ← List.length_append, List.drop_left]
  simp only [List.append_assoc]
  unfold wordsLength?
  simp only [hfront, if_true, List.drop_left, htake, hpos, if_false, hdrop, wordsLength?_one,
    Option.map_some, List.length_append]
  exact congrArg some (by omega)

theorem wordsLength?_notIn {m : Nat}
    (h : wordsLength? [['n', 'o', 't'], ['i', 'n']] ('n' :: 'o' :: 't' :: behind) = some m) :
    ∃ gap more, gap ≠ [] ∧ IsGap gap ∧ behind = gap ++ 'i' :: 'n' :: more ∧
      ('n' :: 'o' :: 't' :: behind).drop m = more := by
  obtain ⟨gap, rest, hgap, htake, rfl⟩ : ∃ gap rest, IsGap gap ∧
      (gap ++ rest).takeWhile Text.isBlank = gap ∧ behind = gap ++ rest := by
    refine ⟨behind.takeWhile Text.isBlank, behind.dropWhile Text.isBlank,
      fun c hc => List.mem_takeWhile_imp hc, ?_, List.takeWhile_append_dropWhile.symm⟩
    rw [List.takeWhile_append_dropWhile]
  have hfront : ['n', 'o', 't'].isPrefixOf ('n' :: 'o' :: 't' :: (gap ++ rest)) = true := rfl
  have hdrop (k : Nat) : ('n' :: 'o' :: 't' :: (gap ++ rest)).drop (3 + gap.length + k) =
      rest.drop k := by
    rw [← List.drop_drop, ← List.drop_drop]
    exact congrArg (List.drop k) List.drop_left
  have hwords : wordsLength? [['n', 'o', 't'], ['i', 'n']] ('n' :: 'o' :: 't' :: (gap ++ rest)) =
      if gap.length = 0 then none
      else (wordsLength? [['i', 'n']] rest).map (3 + gap.length + ·) := by
    have hrest := hdrop 0
    have hthree : ('n' :: 'o' :: 't' :: (gap ++ rest)).drop 3 = gap ++ rest := rfl
    conv => lhs; unfold wordsLength?
    simp only [hfront, if_true, List.length_cons, List.length_nil, Nat.zero_add, Nat.reduceAdd,
      hthree, htake]
    rw [Nat.add_zero] at hrest
    rw [hrest]
    rfl
  rw [hwords, Option.ite_none_left_eq_some] at h
  obtain ⟨hpos, h⟩ := h
  obtain ⟨k, hk, rfl⟩ := Option.map_eq_some_iff.1 h
  obtain ⟨hin, hk⟩ := Option.ite_none_right_eq_some.1
    (show (if ['i', 'n'].isPrefixOf rest then some 2 else none) = some k from hk)
  obtain rfl := Option.some.inj hk
  obtain ⟨more, rfl⟩ := List.isPrefixOf_iff_prefix.1 hin
  exact ⟨gap, more, by simpa using hpos, hgap, rfl, hdrop 2⟩

/-- Where `not in` matches, the text behind `not` goes on with `in`. -/
theorem goesOnWithIn_of_length? {hwords : [] ∉ [['i', 'n']]}
    (h : (wordOperator 'n' ['o', 't'] [['i', 'n']] hwords).length? previous
      ('n' :: 'o' :: 't' :: behind) = some n) : GoesOnWithIn behind := by
  unfold Operator.length? at h
  split at h
  · cases h
  · next m hm =>
    obtain ⟨gap, more, hne, hgap, hbehind, hdrop⟩ := wordsLength?_notIn hm
    refine ⟨gap, more, hne, hgap, hbehind, ?_⟩
    by_contra hboundary
    rw [hdrop] at h
    simp [wordOperator, hboundary] at h

/-- The operator that a word stands for. -/
theorem operator?_of_boundary (hword : SpellsWord value chars behind)
    (hprevious : previous.all isBoundary = true) (hbehind : behind.head?.any isBoundary = true) :
    ∃ operator, operator.value = value.toList ∧
      defaultRules.operator? previous (chars ++ behind) = some (operator, chars.length) := by
  have hone {d : Char} {ds : List Char} :
      (wordOperator d ds [] (by simp)).length? previous (d :: ds ++ behind) =
        some (d :: ds).length :=
    length?_wordOperator_eq_some (wordsLength?_one (d :: ds) behind) hprevious
      (by rwa [List.drop_left])
  cases hword with
  | word h =>
    simp only [List.mem_cons, List.not_mem_nil, or_false] at h
    rcases h with rfl | rfl | rfl
    · exact ⟨_, rfl, @operator?_eq_some _ _ _ _ _ 3 rfl (by decide) (@hone 'o' ['r'])⟩
    · exact ⟨_, rfl, @operator?_eq_some _ _ _ _ _ 2 rfl (by decide) (@hone 'a' ['n', 'd'])⟩
    · exact ⟨_, rfl, @operator?_eq_some _ _ _ _ _ 8 rfl (by decide) (@hone 'i' ['n'])⟩
  | not h =>
    -- The longer `not in` is tried first, and only what stands behind `not` can refuse it.
    refine ⟨wordOperator 'n' ['o', 't'] [] (by simp), rfl, ?_⟩
    have hnotIn : (wordOperator 'n' ['o', 't'] [['i', 'n']] (by simp)).length? previous
        (['n', 'o', 't'] ++ behind) = none :=
      Option.eq_none_iff_forall_ne_some.2 fun n hn => h (goesOnWithIn_of_length? hn)
    have hoperators : defaultRules.operators =
        wordOperator 'n' ['o', 't'] [['i', 'n']] (by simp) ::
          wordOperator 'n' ['o', 't'] [] (by simp) :: defaultRules.operators.drop 2 := rfl
    rw [Rules.operator?, hoperators, List.findSome?_cons, hnotIn, Option.map_none,
      List.findSome?_cons, hone]
    rfl
  | @notIn gap _ hgap hne =>
    refine ⟨wordOperator 'n' ['o', 't'] [['i', 'n']] (by simp), rfl, ?_⟩
    have hlength : wordsLength? [['n', 'o', 't'], ['i', 'n']]
        (['n', 'o', 't'] ++ gap ++ ['i', 'n'] ++ behind) =
          some (['n', 'o', 't'] ++ gap ++ ['i', 'n']).length :=
      wordsLength?_two hgap hne rfl (by decide)
    have hdrop : ((['n', 'o', 't'] ++ gap ++ ['i', 'n'] ++ behind).drop
        (['n', 'o', 't'] ++ gap ++ ['i', 'n']).length).head?.any isBoundary = true := by
      rwa [List.drop_left]
    exact @operator?_eq_some _ _ _ _ _ 0 rfl (by simp)
      (length?_wordOperator_eq_some hlength hprevious hdrop)

theorem not_mem_operatorSigns {c : Char} (hc : isIdentifierStart c = true) : c ∉ operatorSigns := by
  intro hmem
  rw [isIdentifierStart_of_mem_signs c hmem] at hc
  cases hc

/-- A word operator is read as an operator behind a boundary, and otherwise as a name. -/
theorem wordStep_word {s : State} (hword : SpellsWord value chars behind)
    (hbehind : behind.head?.any isBoundary = true) (hrest : s.rest = chars ++ behind) (c : Char) :
    wordStep defaultRules c s =
      if s.previous.all isBoundary then
        .ok ([s.token .operator value.toList], s.advance chars.length)
      else
        .ok ([s.token .name (s.rest.take (nameLength s.rest))], s.advance (nameLength s.rest)) := by
  cases hprevious : s.previous.all isBoundary with
  | true =>
    obtain ⟨operator, hvalue, hoperator⟩ := operator?_of_boundary hword hprevious hbehind
    unfold wordStep
    rw [hrest, hoperator]
    simp only [hvalue, if_true]
  | false =>
    obtain ⟨d, ds, rfl, hd⟩ := hword.exists_cons
    have hnone : defaultRules.operator? s.previous s.rest = none := by
      rw [hrest]
      exact operator?_of_not_boundary hprevious (not_mem_operatorSigns hd)
    have hname : nameLength s.rest ≠ 0 := by
      rw [hrest, List.cons_append, nameLength, if_pos (isNameStart_of_isIdentifierStart hd)]
      omega
    unfold wordStep
    rw [hnone]
    simp only [ne_eq, hname, not_false_eq_true, if_true, Bool.false_eq_true, if_false]

/-- A lexer that has read tokens stands in an expression, in front of white space and a spelling of
a word operator with a boundary behind it. -/
structure AtWord (lexer : Lexer) (source : Source) (tokens : List Token) (s : State)
    (gap : List Char) (value : String) (chars behind : List Char) : Prop where
  reaches : Reaches lexer.rules lexer.comments
    (.start lexer.rules (unifyBreaks source.code.toList)) tokens s
  expression : ReadsExpressions s.nesting
  rest : s.rest = gap ++ (chars ++ behind)
  gap : IsGap gap
  word : SpellsWord value chars behind
  boundary : behind.head?.any isBoundary = true

/-- White space stands in front of the word, or the character there is a boundary. -/
def FollowsBoundary (gap : List Char) (s : State) : Prop :=
  gap ≠ [] ∨ s.previous.all isBoundary = true

namespace AtWord

variable {comments : Comments} {source : Source} {tokens : List Token} {s : State}
  {gap : List Char}

theorem previous_advance_iff {lexer : Lexer}
    (h : AtWord lexer source tokens s gap value chars behind) :
    (s.advance gap.length).previous.all isBoundary = true ↔ FollowsBoundary gap s := by
  have htake : s.rest.take gap.length = gap := by rw [h.rest, List.take_left]
  unfold FollowsBoundary State.advance
  simp only [htake]
  cases hlast : gap.getLast? with
  | none =>
    obtain rfl := List.getLast?_eq_none_iff.1 hlast
    simp
  | some d =>
    have hd := h.gap d (List.mem_of_getLast? hlast)
    have hne : gap ≠ [] := by
      rintro rfl
      cases hlast
    exact iff_of_true (by simp [isBoundary, hd]) (.inl hne)

/-- The step over white space and a word. -/
theorem step_eq (h : AtWord ⟨defaultRules, comments⟩ source tokens s gap value chars behind) :
    step defaultRules comments s =
      let t := s.advance gap.length
      if t.previous.all isBoundary then
        .ok ([t.token .operator value.toList], t.advance chars.length)
      else
        .ok ([t.token .name (t.rest.take (nameLength t.rest))], t.advance (nameLength t.rest)) := by
  obtain ⟨c, cs, hchars, hc⟩ := h.word.exists_cons
  have hrest : s.rest = gap ++ c :: (cs ++ behind) := by rw [h.rest, hchars, List.cons_append]
  have hchar := isIdentifierChar_of_start hc
  have hplace : InTag s.nesting := by
    have hexpression := h.expression
    have hplaced := (h.reaches.sound (sound_start _ _ _)).placed
    generalize s.nesting = nesting at hexpression hplaced
    cases hplaced with
    | text => exact hexpression.elim
    | tag hin => exact hin
    | comment => exact hexpression.elim
  rw [step_of_gap comments hplace h.expression h.gap (isBlank_of_isIdentifierChar hchar)
    (not_mem_closingHeads_of_isIdentifierChar hchar) hrest,
    wordStep_word h.word h.boundary (rest_advance_gap h.rest)]
  simp only
  split <;> rfl

theorem isDone_eq_false {lexer : Lexer}
    (h : AtWord lexer source tokens s gap value chars behind) (comments : Comments) :
    isDone comments s = false := by
  obtain ⟨c, cs, hchars, -⟩ := h.word.exists_cons
  exact Lexer.isDone_eq_false (by rw [h.rest, hchars]; simp)

theorem rest_advance_ne_nil {lexer : Lexer}
    (h : AtWord lexer source tokens s gap value chars behind) :
    (s.advance gap.length).rest ≠ [] := by
  obtain ⟨c, cs, hchars, -⟩ := h.word.exists_cons
  rw [rest_advance_gap h.rest, hchars]
  simp

variable {source' : Source} {tokens' : List Token} {t : State} {gap' : List Char}

/-- Steps over the same word read tokens of one kind and value, if it is an operator for both or
for neither. -/
theorem exists_steps (h : AtWord ⟨defaultRules, comments⟩ source tokens s gap value chars behind)
    (h' : AtWord ⟨defaultRules, comments⟩ source' tokens' t gap' value chars behind)
    (hboundary : FollowsBoundary gap s ↔ FollowsBoundary gap' t) :
    ∃ token token' n, n ≠ 0 ∧ token.spelling = token'.spelling ∧
      step defaultRules comments s = .ok ([token], (s.advance gap.length).advance n) ∧
      step defaultRules comments t = .ok ([token'], (t.advance gap'.length).advance n) := by
  have hstep := h.step_eq
  have hstep' := h'.step_eq
  have hrest := rest_advance_gap h.rest
  have hsame : (t.advance gap'.length).rest = (s.advance gap.length).rest :=
    (rest_advance_gap h'.rest).trans hrest.symm
  obtain ⟨c, cs, hchars, hc⟩ := h.word.exists_cons
  by_cases hfollows : FollowsBoundary gap s
  · rw [if_pos (h.previous_advance_iff.2 hfollows)] at hstep
    rw [if_pos (h'.previous_advance_iff.2 (hboundary.1 hfollows))] at hstep'
    refine ⟨_, _, _, ?_, ?_, hstep, hstep'⟩
    · simp [hchars]
    · rfl
  · rw [if_neg (mt h.previous_advance_iff.1 hfollows)] at hstep
    rw [if_neg (mt h'.previous_advance_iff.1 (mt hboundary.2 hfollows)), hsame] at hstep'
    refine ⟨_, _, _, ?_, ?_, hstep, hstep'⟩
    · rw [hrest, hchars, List.cons_append, nameLength, if_pos (isNameStart_of_isIdentifierStart hc)]
      omega
    · rfl

/-- Lexers that have read the same up to the same word read the same template up to lines. -/
theorem spelled_eq (h : AtWord ⟨defaultRules, comments⟩ source tokens s gap value chars behind)
    (h' : AtWord ⟨defaultRules, comments⟩ source' tokens' t gap' value chars behind)
    (htokens : tokens.map Token.spelling = tokens'.map Token.spelling)
    (hnesting : s.nesting = t.nesting)
    (hopeners : s.brackets.map Bracket.opener = t.brackets.map Bracket.opener)
    (hboundary : FollowsBoundary gap s ↔ FollowsBoundary gap' t) :
    spelled ⟨defaultRules, comments⟩ (unifyBreaks source.code.toList) =
      spelled ⟨defaultRules, comments⟩ (unifyBreaks source'.code.toList) := by
  obtain ⟨token, token', n, hn, htoken, hstep, hstep'⟩ := h.exists_steps h' hboundary
  have hrest := (rest_advance_gap h.rest).trans (rest_advance_gap h'.rest).symm
  have hcore : ((s.advance gap.length).advance n).core = ((t.advance gap'.length).advance n).core :=
    core_advance_pos hrest h.rest_advance_ne_nil hnesting hopeners hn
  refine spelled_eq_of_core (h.reaches.trans (.single (h.isDone_eq_false comments) hstep))
    (h'.reaches.trans (.single (h'.isDone_eq_false comments) hstep')) ?_ hcore
  simp [htokens, htoken]

end AtWord

/-- Where a lexer stands in front of a word operator, the next token is the operator exactly if
white space or a boundary stands in front of the word, and a name otherwise. White space in front of
the word changes nothing in what is read, of a template in which all else is read alike, as long as
it does not change which of the two it is. -/
theorem step_wordOperator_iff {comments : Comments} {lexer : Lexer}
    (hlexer : ofOptions {} comments = .ok lexer) {source : Source} {tokens : List Token}
    {s : State} {gap : List Char} (h : AtWord lexer source tokens s gap value chars behind) :
    (∃ token t, step lexer.rules lexer.comments s = .ok ([token], t) ∧
      (token.spelling = (.operator, value) ↔ FollowsBoundary gap s) ∧
      (token.kind = .name ↔ ¬ FollowsBoundary gap s) ∧
      (FollowsBoundary gap s → t.rest = behind)) ∧
    ∀ source' tokens' t gap', AtWord lexer source' tokens' t gap' value chars behind →
      tokens.map Token.spelling = tokens'.map Token.spelling → s.nesting = t.nesting →
      s.brackets.map Bracket.opener = t.brackets.map Bracket.opener →
      (FollowsBoundary gap s ↔ FollowsBoundary gap' t) →
      spelled lexer (unifyBreaks source.code.toList) =
        spelled lexer (unifyBreaks source'.code.toList) := by
  obtain ⟨r, hr, rfl⟩ := ofOptions_eq_ok.1 hlexer
  obtain rfl := Option.some.inj (ofOptions?_default.symm.trans hr)
  constructor
  · have hstep := h.step_eq
    have hiff := h.previous_advance_iff
    by_cases hboundary : FollowsBoundary gap s
    · rw [if_pos (hiff.2 hboundary)] at hstep
      refine ⟨_, _, hstep, iff_of_true ?_ hboundary, iff_of_false ?_ (not_not_intro hboundary),
        fun _ => ?_⟩
      · simp [Token.spelling, State.token]
      · simp [State.token]
      · rw [State.rest_advance, rest_advance_gap h.rest, List.drop_left]
    · rw [if_neg (mt hiff.1 hboundary)] at hstep
      refine ⟨_, _, hstep, iff_of_false ?_ hboundary, iff_of_true rfl hboundary,
        fun h => absurd h hboundary⟩
      simp [Token.spelling, State.token]
  · intro source' tokens' t gap' h' htokens hnesting hopeners hboundary
    exact h.spelled_eq h' htokens hnesting hopeners hboundary

/-- Behind a closing bracket white space makes no difference. -/
theorem step_wordOperator_iff_bracket :
    ∃ lexer tokens tokens' s t, ofOptions {} .drop = .ok lexer ∧
      AtWord lexer ⟨"page", "\x7b\x7b (a)and b \x7d\x7d"⟩ tokens s [] "and" "and".toList
        " b \x7d\x7d".toList ∧
      AtWord lexer ⟨"page", "\x7b\x7b (a) and b \x7d\x7d"⟩ tokens' t [' '] "and" "and".toList
        " b \x7d\x7d".toList ∧
      (∃ token u, step lexer.rules lexer.comments s = .ok ([token], u) ∧
        token.spelling = (.operator, "and") ∧ u.rest = " b \x7d\x7d".toList) ∧
      spelled lexer (unifyBreaks "\x7b\x7b (a)and b \x7d\x7d".toList) =
        spelled lexer (unifyBreaks "\x7b\x7b (a) and b \x7d\x7d".toList) := by
  have hlexer : ofOptions {} .drop = .ok ⟨defaultRules, .drop⟩ :=
    ofOptions_eq_ok.2 ⟨_, ofOptions?_default, rfl⟩
  obtain ⟨tokens, s, hs, hrest, hprevious, hnesting, hbrackets, htokens⟩ : ∃ tokens s,
      Reaches defaultRules .drop
        (.start defaultRules (unifyBreaks "\x7b\x7b (a)and b \x7d\x7d".toList)) tokens s ∧
      s.rest = "and b \x7d\x7d".toList ∧ s.previous = some ')' ∧ s.nesting = [.print] ∧
      s.brackets = [] ∧ tokens.map Token.spelling =
        [(.varStart, "\x7b\x7b"), (.punctuation, "("), (.name, "a"), (.punctuation, ")")] :=
    ⟨_, _, .step (by decide) rfl (.step (by decide) rfl (.step (by decide) rfl
      (.step (by decide) rfl (.refl _)))), rfl, rfl, rfl, rfl, rfl⟩
  obtain ⟨tokens', t, ht, hrest', hnesting', hbrackets', htokens'⟩ : ∃ tokens t,
      Reaches defaultRules .drop
        (.start defaultRules (unifyBreaks "\x7b\x7b (a) and b \x7d\x7d".toList)) tokens t ∧
      t.rest = " and b \x7d\x7d".toList ∧ t.nesting = [.print] ∧
      t.brackets = [] ∧ tokens.map Token.spelling =
        [(.varStart, "\x7b\x7b"), (.punctuation, "("), (.name, "a"), (.punctuation, ")")] :=
    ⟨_, _, .step (by decide) rfl (.step (by decide) rfl (.step (by decide) rfl
      (.step (by decide) rfl (.refl _)))), rfl, rfl, rfl, rfl⟩
  have h : AtWord ⟨defaultRules, .drop⟩ ⟨"page", "\x7b\x7b (a)and b \x7d\x7d"⟩ tokens s [] "and"
      "and".toList " b \x7d\x7d".toList :=
    ⟨hs, by rw [hnesting]; trivial, hrest, isGap_nil, .word (by decide), by decide⟩
  have h' : AtWord ⟨defaultRules, .drop⟩ ⟨"page", "\x7b\x7b (a) and b \x7d\x7d"⟩ tokens' t [' ']
      "and" "and".toList " b \x7d\x7d".toList :=
    ⟨ht, by rw [hnesting']; trivial, hrest', isGap_space, .word (by decide), by decide⟩
  have hfollows : FollowsBoundary [] s := .inr (by rw [hprevious]; rfl)
  obtain ⟨⟨token, u, hstep, hoperator, -, hu⟩, hspelled⟩ := step_wordOperator_iff hlexer h
  refine ⟨_, tokens, tokens', s, t, hlexer, h, h',
    ⟨token, u, hstep, hoperator.2 hfollows, hu hfollows⟩, ?_⟩
  exact hspelled _ _ _ _ h' (htokens.trans htokens'.symm) (hnesting.trans hnesting'.symm)
    (by rw [hbrackets, hbrackets']) (iff_of_true hfollows (.inl (by simp)))

/-- Behind a quote the word is a name, and a space in front of it makes it the operator. -/
theorem not_step_wordOperator_quote :
    ∃ lexer tokens tokens' s t, ofOptions {} .drop = .ok lexer ∧
      AtWord lexer ⟨"page", "\x7b\x7b 'a'in x \x7d\x7d"⟩ tokens s [] "in" "in".toList
        " x \x7d\x7d".toList ∧
      s.previous = some '\'' ∧ isIdentifierChar '\'' = false ∧
      (∃ u, step lexer.rules lexer.comments s = .ok ([⟨.name, "in", 1⟩], u)) ∧
      AtWord lexer ⟨"page", "\x7b\x7b 'a' in x \x7d\x7d"⟩ tokens' t [' '] "in" "in".toList
        " x \x7d\x7d".toList ∧
      ∃ u, step lexer.rules lexer.comments t = .ok ([⟨.operator, "in", 1⟩], u) :=
  ⟨⟨defaultRules, .drop⟩, _, _, _, _, ofOptions_eq_ok.2 ⟨_, ofOptions?_default, rfl⟩,
    ⟨.step (by decide) rfl (.step (by decide) rfl (.refl _)), trivial, rfl, isGap_nil,
      .word (by decide), by decide⟩,
    rfl, rfl, ⟨_, rfl⟩,
    ⟨.step (by decide) rfl (.step (by decide) rfl (.refl _)), trivial, rfl, isGap_space,
      .word (by decide), by decide⟩, ⟨_, rfl⟩⟩

end TemplateEngine.Lexer
