import TemplateEngine.Proofs.Lexer.Operators
import TemplateEngine.Proofs.Lexer.Runs

/-!
Tables of operators. Main statement: for operators of words with one space between each two, the
operator that a lexer finds at a place is the longest one of its table that matches there, and
lexers whose tables hold the same operators in another order read all templates alike.

Two operators that match at one place agree up to the end of the shorter one: a word ends where it
meets white space, and no word goes on with white space. So none of them is as long as another.
-/

namespace TemplateEngine.Lexer

def IsWord (word : List Char) : Prop :=
  word ≠ [] ∧ ∀ c ∈ word, Text.isBlank c = false

/-- An operator spelled with one space between each two of its words. -/
def IsSpelling (text : String) : Prop :=
  ∃ words, words ≠ [] ∧ (∀ w ∈ words, IsWord w) ∧ text.toList = [' '].intercalate words

theorem wordsFrom_append {word cs : List Char} (h : ∀ c ∈ word, Text.isBlank c = false)
    (before : List Char) :
    Text.wordsFrom before (word ++ cs) = Text.wordsFrom (before ++ word) cs := by
  induction word generalizing before with
  | nil => rw [List.nil_append, List.append_nil]
  | cons c word ih =>
    obtain ⟨hc, hword⟩ := List.forall_mem_cons.1 h
    rw [List.cons_append, Text.wordsFrom, hc, if_neg (by simp), ih hword, List.append_assoc,
      List.singleton_append]

theorem words_intercalate {words : List (List Char)} (h : ∀ w ∈ words, IsWord w) :
    Text.words ([' '].intercalate words) = words := by
  have hspace : Text.isBlank ' ' = true := by decide
  unfold Text.words
  induction words with
  | nil => rfl
  | cons word words ih =>
    obtain ⟨⟨hne, hblank⟩, hwords⟩ := List.forall_mem_cons.1 h
    have hempty : word.isEmpty = false := by simpa using hne
    cases words with
    | nil =>
      have hword : Text.wordsFrom [] (word ++ []) = _ := wordsFrom_append hblank []
      rw [List.append_nil] at hword
      rw [List.intercalate_singleton, hword, List.nil_append, Text.wordsFrom, hempty]
      rfl
    | cons next words =>
      rw [List.intercalate_cons_cons, List.append_assoc, wordsFrom_append hblank,
        List.nil_append, List.singleton_append, Text.wordsFrom, hspace, if_pos rfl, hempty,
        if_neg (by simp), ih hwords]

section

variable {text other : String}

theorem IsSpelling.intercalate_words (h : IsSpelling text) :
    [' '].intercalate (Text.words text.toList) = text.toList := by
  obtain ⟨words, -, hwords, htext⟩ := h
  rw [htext, words_intercalate hwords]

theorem IsSpelling.words_ne_nil (h : IsSpelling text) : Text.words text.toList ≠ [] := by
  obtain ⟨words, hne, hwords, htext⟩ := h
  rwa [htext, words_intercalate hwords]

theorem isSpelling_iff : IsSpelling text ↔
    Text.words text.toList ≠ [] ∧ [' '].intercalate (Text.words text.toList) = text.toList :=
  ⟨fun h => ⟨h.words_ne_nil, h.intercalate_words⟩,
    fun ⟨hne, htext⟩ => ⟨_, hne, fun _ hw => Text.mem_words hw, htext.symm⟩⟩

instance : DecidablePred IsSpelling :=
  fun _ => decidable_of_iff _ isSpelling_iff.symm

/-- A proper beginning of a text takes fewer bytes. -/
theorem utf8ByteSize_lt_of_beginning (h : text.toList <+: other.toList) (hne : text ≠ other) :
    text.utf8ByteSize < other.utf8ByteSize := by
  obtain ⟨tail, htail⟩ := h
  have hother : other = text ++ String.ofList tail := by
    rw [← String.toList_inj, String.toList_append, String.toList_ofList, htail]
  have htail : (String.ofList tail).utf8ByteSize ≠ 0 := by
    rw [Ne, String.utf8ByteSize_eq_zero_iff]
    rintro hnil
    rw [hnil, String.append_empty] at hother
    exact hne hother.symm
  rw [hother, String.utf8ByteSize_append]
  omega

theorem length_lt_of_beginning (h : text.toList <+: other.toList) (hne : text ≠ other) :
    text.length < other.length := by
  rw [← String.length_toList, ← String.length_toList]
  refine Nat.lt_of_le_of_ne h.length_le fun hlength => ?_
  exact hne (String.toList_inj.1 (h.eq_of_length hlength))

end

inductive Writes : List (List Char) → List Char → Prop
  | one (word : List Char) : Writes [word] word
  | more {word gap chars : List Char} {words : List (List Char)} (hgap : IsGap gap)
      (hne : gap ≠ []) (h : Writes words chars) : Writes (word :: words) (word ++ gap ++ chars)

/-- The operator `text` matches at the front of a text, as its first `n` characters: its words
stand there, and where it begins or ends with a letter there is a boundary. -/
def Matches (text : String) (previous : Option Char) (cs : List Char) (n : Nat) : Prop :=
  ∃ chars behind, cs = chars ++ behind ∧ n = chars.length ∧
    Writes (Text.words text.toList) chars ∧
    (text.toList.head?.any Char.isAlpha = true → previous.all isBoundary = true) ∧
    (text.toList.getLast?.any Char.isAlpha = true → behind.head?.any isBoundary = true)

/-- Of the operators that match there, `text` is the longest one. -/
def IsLongest (operators : List String) (previous : Option Char) (cs : List Char) (text : String)
    (n : Nat) : Prop :=
  text ∈ operators ∧ Matches text previous cs n ∧
    ∀ other ∈ operators, ∀ m, Matches other previous cs m →
      other = text ∨ (other.length < text.length ∧ m < n)

section

variable {words others : List (List Char)} {chars more cs behind : List Char} {n m : Nat}

theorem Writes.ne_nil (h : Writes words chars) : words ≠ [] := by
  cases h <;> simp

/-- Words begin with a character that is not white space. -/
theorem Writes.exists_cons (h : Writes words chars) (hwords : ∀ w ∈ words, IsWord w) :
    ∃ c rest, chars = c :: rest ∧ Text.isBlank c = false := by
  have hhead {word : List Char} (hword : IsWord word) (rest : List Char) :
      ∃ c rest', word ++ rest = c :: rest' ∧ Text.isBlank c = false := by
    obtain ⟨c, word, rfl⟩ := List.exists_cons_of_ne_nil hword.1
    exact ⟨c, _, rfl, hword.2 c List.mem_cons_self⟩
  cases h with
  | one =>
    have hword := hhead (hwords chars (by simp)) []
    rwa [List.append_nil] at hword
  | @more word _ _ _ _ _ h =>
    rw [List.append_assoc]
    exact hhead (hwords word (by simp)) _

/-- The white space in front of a word is all of the gap. -/
theorem takeWhile_gap {gap : List Char} (hgap : IsGap gap) (h : Writes words chars)
    (hwords : ∀ w ∈ words, IsWord w) :
    (gap ++ (chars ++ behind)).takeWhile Text.isBlank = gap := by
  obtain ⟨c, rest, rfl, hc⟩ := h.exists_cons hwords
  exact hgap.takeWhile hc

theorem wordsLength?_cons {word : List Char} (hne : words ≠ []) :
    wordsLength? (word :: words) (word ++ cs) =
      if (cs.takeWhile Text.isBlank).length = 0 then none
      else (wordsLength? words (cs.drop (cs.takeWhile Text.isBlank).length)).map
        (word.length + (cs.takeWhile Text.isBlank).length + ·) := by
  have hfront : word.isPrefixOf (word ++ cs) = true :=
    List.isPrefixOf_iff_prefix.2 (List.prefix_append _ _)
  rw [wordsLength?, if_pos hfront]
  · simp only [List.drop_left, ← List.drop_drop]
  · exact hne

theorem wordsLength?_of_writes (h : Writes words chars) (hwords : ∀ w ∈ words, IsWord w) :
    wordsLength? words (chars ++ behind) = some chars.length := by
  induction h with
  | one word => exact wordsLength?_one word behind
  | @more word gap chars words hgap hne h ih =>
    obtain ⟨-, hwords⟩ := List.forall_mem_cons.1 hwords
    rw [List.append_assoc, List.append_assoc, wordsLength?_cons h.ne_nil,
      takeWhile_gap hgap h hwords, if_neg (by simpa using hne), List.drop_left, ih hwords,
      Option.map_some, List.length_append, List.length_append]

theorem writes_of_wordsLength? (hne : words ≠ []) (h : wordsLength? words cs = some n) :
    ∃ chars behind, cs = chars ++ behind ∧ n = chars.length ∧ Writes words chars := by
  induction words generalizing cs n with
  | nil => exact absurd rfl hne
  | cons word words ih =>
    by_cases hfront : word <+: cs
    · obtain ⟨cs, rfl⟩ := hfront
      cases words with
      | nil =>
        rw [wordsLength?_one] at h
        exact ⟨word, cs, rfl, (Option.some.inj h).symm, .one word⟩
      | cons next words =>
        rw [wordsLength?_cons (by simp), Option.ite_none_left_eq_some] at h
        obtain ⟨hpos, h⟩ := h
        obtain ⟨k, hk, rfl⟩ := Option.map_eq_some_iff.1 h
        obtain ⟨chars, behind, hcs, rfl, hwrites⟩ := ih (by simp) hk
        have hgap : IsGap (cs.takeWhile Text.isBlank) := fun c hc => List.mem_takeWhile_imp hc
        refine ⟨_, behind, ?_, ?_, .more hgap (by simpa using hpos) hwrites⟩
        · rw [List.append_assoc, List.append_assoc, ← hcs,
            List.prefix_iff_eq_append.1 (List.takeWhile_prefix _)]
        · rw [List.length_append, List.length_append]
    · simp [wordsLength?_eq_none words hfront] at h

/-- A word that stands in front of a text ends before white space. -/
theorem prefix_of_isWord {word before gap : List Char} (hword : IsWord word) (hgap : IsGap gap)
    (hne : gap ≠ []) (h : word <+: before ++ (gap ++ cs)) : word <+: before := by
  obtain ⟨c, gap, rfl⟩ := List.exists_cons_of_ne_nil hne
  have hnotMem : c ∉ word := by
    intro hc
    have hblank := hgap c List.mem_cons_self
    rw [hword.2 c hc] at hblank
    exact Bool.false_ne_true hblank
  exact prefix_of_prefix_append hnotMem h

/-- Of two operators that stand at one place, the one that takes fewer characters there is the
beginning of the other. -/
theorem Writes.beginning (h : Writes words chars) (hother : Writes others more)
    (hwords : ∀ w ∈ words, IsWord w) (hothers : ∀ w ∈ others, IsWord w)
    (hcs : chars ++ behind = more ++ cs) (hle : chars.length ≤ more.length) :
    [' '].intercalate words <+: [' '].intercalate others := by
  induction h generalizing others more with
  | one word =>
    have hword := hwords word (by simp)
    have hfront : word <+: more ++ cs := ⟨behind, hcs⟩
    cases hother with
    | one => simpa using List.prefix_of_prefix_length_le hfront (List.prefix_append _ _) hle
    | @more other gap rest others hgap hne h =>
      obtain ⟨next, others, rfl⟩ := List.exists_cons_of_ne_nil h.ne_nil
      rw [List.append_assoc, List.append_assoc] at hfront
      rw [List.intercalate_singleton, List.intercalate_cons_cons, List.append_assoc]
      exact (prefix_of_isWord hword hgap hne hfront).trans (List.prefix_append _ _)
  | @more word gap chars words hgap hne h ih =>
    obtain ⟨hword, hwords⟩ := List.forall_mem_cons.1 hwords
    simp only [List.append_assoc] at hcs
    cases hother with
    | one =>
      have hshort := (prefix_of_isWord (hothers more (by simp)) hgap hne ⟨cs, hcs.symm⟩).length_le
      have hpos := List.length_pos_of_ne_nil hne
      simp only [List.length_append] at hle
      omega
    | @more other otherGap rest others hotherGap hotherNe hrest =>
      obtain ⟨hotherWord, hothers⟩ := List.forall_mem_cons.1 hothers
      simp only [List.append_assoc] at hcs
      have hfirst : word = other := by
        have hle := prefix_of_isWord hword hotherGap hotherNe ⟨_, hcs⟩
        have hge := prefix_of_isWord hotherWord hgap hne ⟨_, hcs.symm⟩
        exact hle.eq_of_length (Nat.le_antisymm hle.length_le hge.length_le)
      rw [hfirst, List.append_cancel_left_eq] at hcs
      have hgaps : gap = otherGap := by
        rw [← takeWhile_gap hgap h hwords, hcs, takeWhile_gap hotherGap hrest hothers]
      rw [hgaps, List.append_cancel_left_eq] at hcs
      simp only [hfirst, hgaps, List.length_append] at hle
      obtain ⟨next, words, rfl⟩ := List.exists_cons_of_ne_nil h.ne_nil
      obtain ⟨nextOther, others, rfl⟩ := List.exists_cons_of_ne_nil hrest.ne_nil
      rw [List.intercalate_cons_cons, List.intercalate_cons_cons, hfirst]
      exact (List.prefix_append_right_inj _).2 (ih hrest hwords hothers hcs (by omega))

end

section

variable {text other : String} {operators : List String} {operator : Operator}
  {previous : Option Char} {cs : List Char} {n m : Nat}

theorem IsSpelling.exists_operator (h : IsSpelling text) :
    ∃ operator, Operator.ofText? text = some operator ∧ operator.value = text.toList :=
  ⟨_, dif_pos h.words_ne_nil, h.intercalate_words⟩

theorem Operator.length?_eq_some_iff :
    operator.length? previous cs = some n ↔
      wordsLength? operator.words cs = some n ∧
        (operator.startsWithLetter = true → previous.all isBoundary = true) ∧
        (operator.endsWithLetter = true → (cs.drop n).head?.any isBoundary = true) := by
  have hprevious : previous.any (!isBoundary ·) = !previous.all isBoundary := by
    cases previous <;> simp
  unfold Operator.length?
  rw [hprevious]
  cases wordsLength? operator.words cs with
  | none => simp
  | some k => grind

/-- The operator of a text is found where the text matches. -/
theorem length?_eq_some_iff_matches (h : Operator.ofText? text = some operator) :
    operator.length? previous cs = some n ↔ Matches text previous cs n := by
  have hwords : ∀ w ∈ Text.words text.toList, IsWord w := fun w hw => Text.mem_words hw
  obtain ⟨hne, hoperator⟩ := Option.dite_none_right_eq_some.1 h
  obtain rfl := Option.some.inj hoperator
  rw [Operator.length?_eq_some_iff]
  constructor
  · rintro ⟨hlength, hstart, hstop⟩
    obtain ⟨chars, behind, rfl, rfl, hwrites⟩ := writes_of_wordsLength? hne hlength
    rw [List.drop_left] at hstop
    exact ⟨chars, behind, rfl, rfl, hwrites, hstart, hstop⟩
  · rintro ⟨chars, behind, rfl, rfl, hwrites, hstart, hstop⟩
    rw [List.drop_left]
    exact ⟨wordsLength?_of_writes hwrites hwords, hstart, hstop⟩

theorem Matches.length_eq (h : Matches text previous cs n) (hother : Matches text previous cs m) :
    n = m := by
  have hwords : ∀ w ∈ Text.words text.toList, IsWord w := fun w hw => Text.mem_words hw
  obtain ⟨chars, behind, rfl, rfl, hwrites, -⟩ := h
  obtain ⟨more, tail, hcs, rfl, hmore, -⟩ := hother
  have hlength : wordsLength? _ (chars ++ behind) = _ := wordsLength?_of_writes hwrites hwords
  rw [hcs, wordsLength?_of_writes hmore hwords] at hlength
  exact (Option.some.inj hlength).symm

/-- Of two operators that match at one place, the one that takes fewer characters there is the
beginning of the other. -/
theorem Matches.beginning (h : Matches text previous cs n) (hother : Matches other previous cs m)
    (htext : IsSpelling text) (hotherText : IsSpelling other) (hle : n ≤ m) :
    text.toList <+: other.toList := by
  obtain ⟨chars, behind, rfl, rfl, hwrites, -⟩ := h
  obtain ⟨more, tail, hcs, rfl, hmore, -⟩ := hother
  rw [← htext.intercalate_words, ← hotherText.intercalate_words]
  have hwords (text : String) : ∀ w ∈ Text.words text.toList, IsWord w :=
    fun w hw => Text.mem_words hw
  exact hwrites.beginning hmore (hwords text) (hwords other) hcs hle

/-- Two operators that match at one place are the same, or one of them is a proper beginning of the
other and takes fewer characters there. -/
theorem Matches.trichotomy (h : Matches text previous cs n) (hother : Matches other previous cs m)
    (htext : IsSpelling text) (hotherText : IsSpelling other) :
    text = other ∨ (text.toList <+: other.toList ∧ text ≠ other ∧ n < m) ∨
      (other.toList <+: text.toList ∧ other ≠ text ∧ m < n) := by
  rcases Nat.lt_trichotomy n m with hlt | rfl | hlt
  · have hne : text ≠ other := by
      rintro rfl
      exact Nat.ne_of_lt hlt (h.length_eq hother)
    exact .inr (.inl ⟨h.beginning hother htext hotherText (Nat.le_of_lt hlt), hne, hlt⟩)
  · have hle := h.beginning hother htext hotherText (Nat.le_refl n)
    have hge := hother.beginning h hotherText htext (Nat.le_refl n)
    have heq := hle.eq_of_length (Nat.le_antisymm hle.length_le hge.length_le)
    exact .inl (String.toList_inj.1 heq)
  · have hne : other ≠ text := by
      rintro rfl
      exact Nat.ne_of_lt hlt (hother.length_eq h)
    exact .inr (.inr ⟨hother.beginning h hotherText htext (Nat.le_of_lt hlt), hne, hlt⟩)

theorem perm_insertBySize (text : String) (texts : List String) :
    (insertBySize text texts).Perm (text :: texts) := by
  induction texts with
  | nil => exact .refl _
  | cons other texts ih =>
    unfold insertBySize
    split
    · exact .refl _
    · exact (ih.cons other).trans (.swap text other texts)

theorem perm_longestFirst (texts : List String) : (longestFirst texts).Perm texts := by
  induction texts with
  | nil => exact .refl _
  | cons text texts ih => exact (perm_insertBySize text _).trans (ih.cons text)

def ComesFirst (text other : String) : Prop :=
  other.utf8ByteSize ≤ text.utf8ByteSize

theorem pairwise_insertBySize (text : String) {texts : List String}
    (h : texts.Pairwise ComesFirst) : (insertBySize text texts).Pairwise ComesFirst := by
  induction texts with
  | nil => simp [insertBySize]
  | cons other texts ih =>
    obtain ⟨hother, htexts⟩ := List.pairwise_cons.1 h
    unfold insertBySize
    split
    · next hle =>
      refine List.pairwise_cons.2 ⟨?_, h⟩
      intro b hb
      rcases List.mem_cons.1 hb with rfl | hb
      · exact hle
      · exact Nat.le_trans (hother b hb) hle
    · next hlt =>
      refine List.pairwise_cons.2 ⟨?_, ih htexts⟩
      intro b hb
      rcases List.mem_cons.1 ((perm_insertBySize text texts).mem_iff.1 hb) with rfl | hb
      · exact Nat.le_of_not_le hlt
      · exact hother b hb

theorem pairwise_longestFirst (texts : List String) :
    (longestFirst texts).Pairwise ComesFirst := by
  induction texts with
  | nil => exact .nil
  | cons text texts ih => exact pairwise_insertBySize text ih

/-- In a table ordered by size, the first operator that matches is the longest one. -/
theorem isLongest_of_first {front back : List String}
    (hspelled : ∀ other ∈ front ++ text :: back, IsSpelling other)
    (hsorted : (front ++ text :: back).Pairwise ComesFirst)
    (hfront : ∀ other ∈ front, ∀ m, ¬ Matches other previous cs m)
    (h : Matches text previous cs n) : IsLongest (front ++ text :: back) previous cs text n := by
  refine ⟨by simp, h, ?_⟩
  intro other hmem m hother
  rcases hother.trichotomy h (hspelled other hmem) (hspelled text (by simp)) with
    heq | ⟨hbegins, hne, hlt⟩ | ⟨hbegins, hne, -⟩
  · exact .inl heq
  · exact .inr ⟨length_lt_of_beginning hbegins hne, hlt⟩
  · have hsize := utf8ByteSize_lt_of_beginning hbegins hne
    rcases List.mem_append.1 hmem with hmem | hmem
    · exact absurd hother (hfront other hmem m)
    rcases List.mem_cons.1 hmem with rfl | hmem
    · exact .inl rfl
    · have htail := (List.pairwise_append.1 hsorted).2.1
      have hfirst : other.utf8ByteSize ≤ text.utf8ByteSize :=
        (List.pairwise_cons.1 htail).1 other hmem
      omega

theorem IsLongest.eq (h : IsLongest operators previous cs text n)
    (hother : IsLongest operators previous cs other m) : text = other ∧ n = m := by
  obtain ⟨hmem, hmatches, hlongest⟩ := h
  obtain ⟨hotherMem, hotherMatches, hotherLongest⟩ := hother
  have heq : text = other := by
    rcases hlongest other hotherMem m hotherMatches with heq | ⟨hlt, -⟩
    · exact heq.symm
    · rcases hotherLongest text hmem n hmatches with heq | ⟨hlt', -⟩
      · exact heq
      · exact absurd hlt (Nat.lt_asymm hlt')
  subst heq
  exact ⟨rfl, hmatches.length_eq hotherMatches⟩

/-- Which operator is the longest one does not depend on the order of the table. -/
theorem isLongest_iff_of_perm {others : List String} (hperm : others.Perm operators) :
    IsLongest others previous cs text n ↔ IsLongest operators previous cs text n := by
  simp only [IsLongest, hperm.mem_iff]

def operatorAt? (previous : Option Char) (cs : List Char) (text : String) :
    Option (Operator × Nat) :=
  (Operator.ofText? text).bind fun operator =>
    (operator.length? previous cs).map fun n => (operator, n)

theorem operatorAt?_eq_some_iff :
    operatorAt? previous cs text = some (operator, n) ↔
      Operator.ofText? text = some operator ∧ Matches text previous cs n := by
  unfold operatorAt?
  rw [Option.bind_eq_some_iff]
  constructor
  · rintro ⟨operator, htext, h⟩
    obtain ⟨k, hk, heq⟩ := Option.map_eq_some_iff.1 h
    obtain ⟨rfl, rfl⟩ := Prod.mk.inj heq
    exact ⟨htext, (length?_eq_some_iff_matches htext).1 hk⟩
  · rintro ⟨htext, h⟩
    exact ⟨operator, htext, by rw [(length?_eq_some_iff_matches htext).2 h, Option.map_some]⟩

theorem operatorAt?_eq_none_iff (htext : IsSpelling text) :
    operatorAt? previous cs text = none ↔ ∀ n, ¬ Matches text previous cs n := by
  obtain ⟨operator, hoperator, -⟩ := htext.exists_operator
  rw [Option.eq_none_iff_forall_ne_some]
  constructor
  · intro h n hmatches
    exact h (operator, n) (operatorAt?_eq_some_iff.2 ⟨hoperator, hmatches⟩)
  · rintro h ⟨found, n⟩ hfound
    exact h n (operatorAt?_eq_some_iff.1 hfound).2

theorem findSome?_filterMap {α β γ : Type} (f : α → Option β) (g : β → Option γ) (xs : List α) :
    (xs.filterMap f).findSome? g = xs.findSome? fun x => (f x).bind g := by
  induction xs with
  | nil => rfl
  | cons x xs ih =>
    rw [List.findSome?_cons, List.filterMap_cons]
    cases f x with
    | none => exact ih
    | some y =>
      rw [List.findSome?_cons, ih]
      rfl

section

variable {options : Options} {r : Rules}

def Rules.withOperators (r : Rules) (table : List Operator) : Rules :=
  { r with operators := table }

theorem ofOptions?_operators (options : Options) (operators : List String) :
    Rules.ofOptions? { options with operators } = (Rules.ofOptions? options).map
      (·.withOperators ((longestFirst operators).filterMap Operator.ofText?)) := by
  unfold Rules.ofOptions?
  cases Delimiters.ofPair? options.comment with
  | none => rfl
  | some comment =>
    cases Delimiters.ofPair? options.block with
    | none => rfl
    | some block =>
      cases Delimiters.ofPair? options.print with
      | none => rfl
      | some print =>
        cases Delimiters.ofPair? options.interpolation with
        | none => rfl
        | some interpolation => rfl

theorem operator?_eq_findSome? (hr : Rules.ofOptions? options = some r) :
    r.operator? previous cs =
      (longestFirst options.operators).findSome? (operatorAt? previous cs) := by
  have hoperators : r.operators = (longestFirst options.operators).filterMap Operator.ofText? := by
    have hself := ofOptions?_operators options options.operators
    rw [hr, Option.map_some] at hself
    exact congrArg Rules.operators (Option.some.inj hself)
  rw [Rules.operator?, hoperators, findSome?_filterMap]
  rfl

theorem operator?_eq_none_iff (hspelled : ∀ text ∈ options.operators, IsSpelling text)
    (hr : Rules.ofOptions? options = some r) :
    r.operator? previous cs = none ↔
      ∀ text ∈ options.operators, ∀ n, ¬ Matches text previous cs n := by
  rw [operator?_eq_findSome? hr, List.findSome?_eq_none_iff]
  simp only [(perm_longestFirst options.operators).mem_iff]
  exact forall₂_congr fun text hmem => operatorAt?_eq_none_iff (hspelled text hmem)

theorem exists_isLongest_of_operator? (hspelled : ∀ text ∈ options.operators, IsSpelling text)
    (hr : Rules.ofOptions? options = some r) (h : r.operator? previous cs = some (operator, n)) :
    ∃ text, Operator.ofText? text = some operator ∧
      IsLongest options.operators previous cs text n := by
  have hperm := perm_longestFirst options.operators
  have hsorted := pairwise_longestFirst options.operators
  have hall : ∀ other ∈ longestFirst options.operators, IsSpelling other :=
    fun other hmem => hspelled other (hperm.mem_iff.1 hmem)
  rw [operator?_eq_findSome? hr, List.findSome?_eq_some_iff] at h
  obtain ⟨front, text, back, htable, hat, hfront⟩ := h
  obtain ⟨htext, hmatches⟩ := operatorAt?_eq_some_iff.1 hat
  rw [htable] at hsorted hall
  refine ⟨text, htext, (isLongest_iff_of_perm hperm).1 ?_⟩
  rw [htable]
  refine isLongest_of_first hall hsorted ?_ hmatches
  intro other hmem
  exact (operatorAt?_eq_none_iff (hall other (List.mem_append_left _ hmem))).1 (hfront other hmem)

theorem operator?_eq_some_iff (hspelled : ∀ text ∈ options.operators, IsSpelling text)
    (hr : Rules.ofOptions? options = some r) :
    r.operator? previous cs = some (operator, n) ↔
      ∃ text, Operator.ofText? text = some operator ∧
        IsLongest options.operators previous cs text n := by
  refine ⟨exists_isLongest_of_operator? hspelled hr, ?_⟩
  rintro ⟨text, htext, hlongest⟩
  cases hfound : r.operator? previous cs with
  | none =>
    have hnone := (operator?_eq_none_iff hspelled hr).1 hfound
    exact absurd hlongest.2.1 (hnone text hlongest.1 n)
  | some found =>
    obtain ⟨other, hother, hotherLongest⟩ := exists_isLongest_of_operator? hspelled hr hfound
    obtain ⟨rfl, rfl⟩ := hlongest.eq hotherLongest
    rw [htext] at hother
    rw [Option.some.inj hother]

end

end

section

variable {r : Rules} {table : List Operator}

theorem expressionStep_withOperators (h : (r.withOperators table).operator? = r.operator?) :
    expressionStep (r.withOperators table) = expressionStep r := by
  funext s
  unfold expressionStep wordStep
  rw [h]

theorem partStep_withOperators (h : (r.withOperators table).operator? = r.operator?) :
    partStep (r.withOperators table) = partStep r := by
  funext s
  unfold partStep closeOrExpression interpolationStep
  rw [expressionStep_withOperators h]
  rfl

/-- Only expressions look at the operators. -/
theorem step_withOperators (h : (r.withOperators table).operator? = r.operator?)
    (comments : Comments) : step (r.withOperators table) comments = step r comments := by
  cases comments with
  | drop =>
    funext s
    show dropStep _ s = dropStep _ s
    unfold dropStep
    rw [partStep_withOperators h]
    rfl
  | keep =>
    funext s
    show keepStep _ s = keepStep _ s
    unfold keepStep
    rw [partStep_withOperators h]
    rfl

theorem run_withOperators (h : (r.withOperators table).operator? = r.operator?)
    (comments : Comments) (steps : Nat) (s : State) :
    run (r.withOperators table) comments steps s = run r comments steps s := by
  induction steps generalizing s with
  | zero => rfl
  | succ steps ih =>
    unfold run
    simp only [step_withOperators h, ih]

theorem tagStartsFrom_withOperators (skip offset : Nat) (cs : List Char) :
    (r.withOperators table).tagStartsFrom skip offset cs = r.tagStartsFrom skip offset cs := by
  induction cs generalizing skip offset with
  | nil => simp only [Rules.tagStartsFrom]
  | cons c cs ih =>
    have hstart : (r.withOperators table).tagStart? offset (c :: cs) =
        r.tagStart? offset (c :: cs) := rfl
    cases skip with
    | zero => simp only [Rules.tagStartsFrom, hstart, ih]
    | succ skip => simp only [Rules.tagStartsFrom, ih]

theorem tokenize_withOperators (h : (r.withOperators table).operator? = r.operator?)
    (comments : Comments) (source : Source) :
    tokenize ⟨r.withOperators table, comments⟩ source = tokenize ⟨r, comments⟩ source := by
  have hstart (code : List Char) : State.start (r.withOperators table) code = .start r code := by
    simp only [State.start, Rules.tagStarts, tagStartsFrom_withOperators]
  simp only [tokenize_eq_bind, tokens_eq_bind, hstart, run_withOperators h]

end

/-- Tables of the same operators find the same operator everywhere. -/
theorem operator?_eq_of_perm {options : Options} {operators : List String} {r : Rules}
    (hspelled : ∀ text ∈ options.operators, IsSpelling text)
    (hperm : operators.Perm options.operators) (hr : Rules.ofOptions? options = some r) :
    (r.withOperators ((longestFirst operators).filterMap Operator.ofText?)).operator? =
      r.operator? := by
  have hother : Rules.ofOptions? { options with operators } =
      some (r.withOperators ((longestFirst operators).filterMap Operator.ofText?)) := by
    rw [ofOptions?_operators, hr, Option.map_some]
  have hotherSpelled : ∀ text ∈ operators, IsSpelling text :=
    fun text hmem => hspelled text (hperm.mem_iff.1 hmem)
  funext previous cs
  apply Option.ext
  rintro ⟨operator, n⟩
  rw [operator?_eq_some_iff hotherSpelled hother, operator?_eq_some_iff hspelled hr]
  simp only [isLongest_iff_of_perm hperm]

/-- For a table of spelled operators: the operator found at a place is the longest one of the table
that matches there, with the length of its match, and none is found only where none matches. A table
of the same operators in another order gives the same tokens, or the same error, for every template
and both lexers. -/
theorem operator?_longest_and_tokenize_perm {options : Options}
    (hspelled : ∀ text ∈ options.operators, IsSpelling text) :
    (∀ r, Rules.ofOptions? options = some r → ∀ previous cs,
      (∀ text n, (∃ operator, r.operator? previous cs = some (operator, n) ∧
          String.ofList operator.value = text) ↔
        IsLongest options.operators previous cs text n) ∧
      (r.operator? previous cs = none ↔
        ∀ text ∈ options.operators, ∀ n, ¬ Matches text previous cs n)) ∧
    ∀ operators : List String, operators.Perm options.operators → ∀ comments source,
      (ofOptions { options with operators } comments).bind (·.tokenize source) =
        (ofOptions options comments).bind (·.tokenize source) := by
  constructor
  · intro r hr previous cs
    refine ⟨fun text n => ?_, operator?_eq_none_iff hspelled hr⟩
    simp only [operator?_eq_some_iff hspelled hr]
    constructor
    · rintro ⟨operator, ⟨text, htext, hlongest⟩, rfl⟩
      obtain ⟨other, hother, hvalue⟩ := (hspelled text hlongest.1).exists_operator
      obtain rfl := Option.some.inj (htext.symm.trans hother)
      rwa [hvalue, String.ofList_toList]
    · intro hlongest
      obtain ⟨operator, htext, hvalue⟩ := (hspelled text hlongest.1).exists_operator
      exact ⟨operator, ⟨text, htext, hlongest⟩, by rw [hvalue, String.ofList_toList]⟩
  · intro operators hperm comments source
    unfold ofOptions
    rw [ofOptions?_operators]
    cases hr : Rules.ofOptions? options with
    | none => rfl
    | some r =>
      have hoperator := operator?_eq_of_perm hspelled hperm hr
      exact tokenize_withOperators hoperator comments source

/-- A table in which `not` and `in` stand in front of `not in`. -/
theorem operator?_longest_and_tokenize_perm_notIn :
    (∀ text ∈ ["not", "in", "<", "<=", "not in"], IsSpelling text) ∧
    IsLongest ["not", "in", "<", "<=", "not in"] (some ' ') "not \n in x".toList "not in" 8 ∧
    ∀ comments source,
      (ofOptions { operators := ["not in", "<=", "<", "in", "not"] } comments).bind
          (·.tokenize source) =
        (ofOptions { operators := ["not", "in", "<", "<=", "not in"] } comments).bind
          (·.tokenize source) := by
  have hspelled : ∀ text ∈ ["not", "in", "<", "<=", "not in"], IsSpelling text := by
    decide +kernel
  obtain ⟨hlongest, hperm⟩ := @operator?_longest_and_tokenize_perm
    { operators := ["not", "in", "<", "<=", "not in"] } hspelled
  refine ⟨hspelled, ?_, hperm _ (by decide)⟩
  exact ((hlongest _ rfl _ _).1 _ _).1 ⟨_, rfl, by decide +kernel⟩

end TemplateEngine.Lexer
