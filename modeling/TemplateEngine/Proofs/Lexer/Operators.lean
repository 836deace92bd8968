import TemplateEngine.Proofs.Decimal.Natural
import TemplateEngine.Proofs.Lexer.Words

/-!
The default rules. Main statements: no operator stands at the front of a name or of a character that
begins none, and a tag does not end there.
-/

namespace TemplateEngine.Lexer

def signOperator (c : Char) (cs : List Char) : Operator where
  words := [c :: cs]
  startsWithLetter := false
  endsWithLetter := false
  words_ne_nil := by simp
  ne_nil_of_mem_words := by simp

def wordOperator (c : Char) (cs : List Char) (more : List (List Char)) (hmore : [] ∉ more) :
    Operator where
  words := (c :: cs) :: more
  startsWithLetter := true
  endsWithLetter := true
  words_ne_nil := by simp
  ne_nil_of_mem_words := by
    intro w hw
    rcases List.mem_cons.1 hw with rfl | hw
    · simp
    · rintro rfl
      exact hmore hw

/-- The rules of the default settings, with the operators in the order in which they are tried. -/
def defaultRules : Rules where
  comment := ⟨['\x7b', '#'], ['#', '\x7d'], by simp, by simp⟩
  block := ⟨['\x7b', '%'], ['%', '\x7d'], by simp, by simp⟩
  print := ⟨['\x7b', '\x7b'], ['\x7d', '\x7d'], by simp, by simp⟩
  interpolation := ⟨['#', '\x7b'], ['\x7d'], by simp, by simp⟩
  trim := '-'
  lineTrim := '~'
  operators :=
    [wordOperator 'n' ['o', 't'] [['i', 'n']] (by simp), wordOperator 'n' ['o', 't'] [] (by simp),
      wordOperator 'a' ['n', 'd'] [] (by simp), wordOperator 'o' ['r'] [] (by simp),
      signOperator '=' ['='], signOperator '!' ['='], signOperator '>' ['='],
      signOperator '<' ['='], wordOperator 'i' ['n'] [] (by simp), signOperator '/' ['/'],
      signOperator '*' ['*'], signOperator '<' [], signOperator '>' [], signOperator '~' [],
      signOperator '+' [], signOperator '-' [], signOperator '*' [], signOperator '/' [],
      signOperator '%' []]

theorem ofOptions?_default : Rules.ofOptions? {} = some defaultRules :=
  rfl

def operatorSigns : List Char :=
  ['=', '!', '>', '<', '/', '*', '~', '+', '-', '%']

inductive IsDefault : Operator → Prop
  | sign {c : Char} {cs : List Char} (hc : c ∈ operatorSigns) : IsDefault (signOperator c cs)
  | word {c : Char} {cs : List Char} {more : List (List Char)} {hmore : [] ∉ more}
      (hword : String.ofList (c :: cs) ∈ operatorWords) : IsDefault (wordOperator c cs more hmore)

theorem isDefault_of_mem : ∀ operator ∈ defaultRules.operators, IsDefault operator := by
  have hword := @IsDefault.word
  have hsign := @IsDefault.sign
  simp only [defaultRules, List.forall_mem_cons, List.not_mem_nil, false_implies, implies_true,
    and_true]
  refine ⟨hword ?_, hword ?_, hword ?_, hword ?_, hsign ?_, hsign ?_, hsign ?_, hsign ?_, hword ?_,
    hsign ?_, hsign ?_, hsign ?_, hsign ?_, hsign ?_, hsign ?_, hsign ?_, hsign ?_, hsign ?_,
    hsign ?_⟩ <;> decide

section

variable {previous : Option Char} {c : Char} {cs more : List Char}

theorem operator?_eq_none
    (h : ∀ operator, IsDefault operator → operator.length? previous cs = none) :
    defaultRules.operator? previous cs = none := by
  rw [Rules.operator?, List.findSome?_eq_none_iff]
  intro operator hoperator
  rw [h operator (isDefault_of_mem operator hoperator)]
  rfl

theorem wordsLength?_eq_none {word : List Char} (words : List (List Char))
    (h : ¬ word <+: cs) : wordsLength? (word :: words) cs = none := by
  rw [← List.isPrefixOf_iff_prefix] at h
  cases words <;> simp [wordsLength?, h]

theorem wordsLength?_one (word behind : List Char) :
    wordsLength? [word] (word ++ behind) = some word.length := by
  simp [wordsLength?, List.isPrefixOf_iff_prefix.2 (List.prefix_append word behind)]

/-- An operator that begins with another character does not match. -/
theorem length?_of_head {operator : Operator}
    (h : operator.words.head?.bind List.head? ≠ some c) :
    operator.length? previous (c :: cs) = none := by
  unfold Operator.length?
  cases hwords : operator.words with
  | nil => exact absurd hwords operator.words_ne_nil
  | cons word words =>
    have hfront : ¬ word <+: c :: cs := by
      cases word with
      | nil => exact absurd rfl (operator.ne_nil_of_mem_words [] (by simp [hwords]))
      | cons d ds =>
        rw [List.cons_prefix_cons]
        rintro ⟨rfl, -⟩
        simp [hwords] at h
    simp only [wordsLength?_eq_none words hfront]

theorem length?_signOperator {d : Char} {ds : List Char} (h : d ≠ c) :
    (signOperator d ds).length? previous (c :: cs) = none :=
  length?_of_head (by simpa [signOperator] using h)

theorem length?_wordOperator {d : Char} {ds : List Char} {words : List (List Char)}
    {hwords : [] ∉ words} (h : ¬ d :: ds <+: cs) :
    (wordOperator d ds words hwords).length? previous cs = none := by
  rw [Operator.length?, wordOperator]
  simp only [wordsLength?_eq_none words h]

/-- Every operator begins with a sign or with the first letter of a word. -/
theorem operator?_of_head (hsigns : c ∉ operatorSigns)
    (hwords : ∀ w ∈ operatorWords, w.toList.head? ≠ some c) :
    defaultRules.operator? previous (c :: cs) = none := by
  apply operator?_eq_none
  intro operator hoperator
  cases hoperator with
  | sign hd =>
    apply length?_signOperator
    rintro rfl
    exact hsigns hd
  | word hword =>
    apply length?_of_head
    have := hwords _ hword
    simpa [wordOperator] using this

/-- A word operator does not match in front of an identifier character. -/
theorem length?_wordOperator_of_identifier {d : Char} {ds rest : List Char}
    {words : List (List Char)} {hwords : [] ∉ words} (hc : isIdentifierChar c = true) :
    (wordOperator d ds words hwords).length? previous (d :: ds ++ c :: rest) = none := by
  have hfront : (d :: ds).isPrefixOf (d :: ds ++ c :: rest) = true :=
    List.isPrefixOf_iff_prefix.2 (List.prefix_append _ _)
  have hblank : ¬ Text.isBlank c = true := by simp [isBlank_of_isIdentifierChar hc]
  rw [Operator.length?, wordOperator]
  cases words with
  | nil =>
    simp only [wordsLength?, hfront, if_true, List.drop_left, List.head?_cons, Option.any_some,
      isBoundary_of_isIdentifierChar hc]
    simp
  | cons w ws =>
    simp only [wordsLength?, hfront, if_true, List.drop_left, List.takeWhile_cons_of_neg hblank]
    rfl

theorem isIdentifierChar_of_mem_word {w : String} (hw : w ∈ operatorWords) :
    ∀ c ∈ w.toList, isIdentifierChar c = true := by
  have hall : ∀ w ∈ operatorWords, w.toList.all isIdentifierChar = true :=
    forall_mem_of_all (by decide)
  exact List.all_eq_true.1 (hall w hw)

theorem isIdentifierStart_of_mem_signs : ∀ c ∈ operatorSigns, isIdentifierStart c = false :=
  forall_mem_of_all (by decide)

theorem prefix_of_prefix_append {w : List Char} {d : Char} (hw : d ∉ w)
    (hcs : w <+: cs ++ d :: more) : w <+: cs := by
  induction w generalizing cs with
  | nil => simp
  | cons c w ih =>
    cases cs with
    | nil =>
      rw [List.nil_append, List.cons_prefix_cons] at hcs
      simp [hcs.1] at hw
    | cons d cs =>
      rw [List.cons_append, List.cons_prefix_cons] at hcs
      rw [List.cons_prefix_cons]
      exact ⟨hcs.1, ih (fun h => hw (by simp [h])) hcs.2⟩

/-- An identifier is no operator unless it is one of the words. -/
theorem operator?_name {text : String} (h : IsName text) {behind : Char}
    (hbehind : isIdentifierChar behind = false) :
    defaultRules.operator? previous (text.toList ++ behind :: more) = none := by
  obtain ⟨htext, hne⟩ := h
  apply operator?_eq_none
  intro operator hoperator
  cases hoperator with
  | @sign d ds hd =>
    obtain ⟨c, cs, hcs, hc, -⟩ := htext
    rw [hcs]
    apply length?_signOperator
    rintro rfl
    rw [isIdentifierStart_of_mem_signs d hd] at hc
    simp at hc
  | @word d ds words hwords hword =>
    by_cases hfront : d :: ds <+: text.toList ++ behind :: more
    · have hnotMem : behind ∉ d :: ds := by
        intro h
        have := isIdentifierChar_of_mem_word hword behind (by rwa [String.toList_ofList])
        simp [hbehind] at this
      obtain ⟨rest, hrest⟩ := prefix_of_prefix_append hnotMem hfront
      cases rest with
      | nil =>
        rw [List.append_nil] at hrest
        rw [hrest, String.ofList_toList] at hword
        exact absurd hword hne
      | cons c rest =>
        have hc : isIdentifierChar c = true :=
          htext.forall_isIdentifierChar c (by rw [← hrest]; simp)
        rw [← hrest, List.append_assoc, List.cons_append]
        exact length?_wordOperator_of_identifier hc
    · exact length?_wordOperator hfront

end

structure PlainHead (c : Char) : Prop where
  blank : Text.isBlank c = false
  signs : c ∉ operatorSigns
  words : ∀ w ∈ operatorWords, w.toList.head? ≠ some c
  name : isNameStart c = false
  close : c ≠ '\x7d'

def markChars : List Char :=
  ['(', ')', '[', ']', ',', '.', '|']

theorem plainHead_of_isDigit {c : Char} (hc : c.isDigit = true) : PlainHead c := by
  have hne : ∀ d : Char, d.isDigit = false → c ≠ d := by
    rintro d hd rfl
    rw [hc] at hd
    simp at hd
  have hsigns : ∀ d ∈ operatorSigns, d.isDigit = false := forall_mem_of_all (by decide)
  have hwords : ∀ w ∈ operatorWords, w.toList.head?.any Char.isDigit = false :=
    forall_mem_of_all (by decide)
  constructor
  · apply isBlank_of_isIdentifierChar
    simp [isIdentifierChar, Char.isAlphanum, hc]
  · intro hmem
    exact hne c (hsigns c hmem) rfl
  · intro w hw hhead
    have := hwords w hw
    rw [hhead, Option.any_some, hc] at this
    simp at this
  · exact isNameStart_of_isDigit hc
  · exact hne _ (by decide)

theorem plainHead_of_mem {c : Char} (hc : c ∈ '\'' :: '"' :: markChars) : PlainHead c := by
  have hblank : ∀ c ∈ '\'' :: '"' :: markChars, Text.isBlank c = false :=
    forall_mem_of_all (by decide)
  have hsigns : ∀ c ∈ '\'' :: '"' :: markChars, c ∉ operatorSigns := forall_mem_of_all (by decide)
  have hwords : ∀ c ∈ '\'' :: '"' :: markChars,
      (operatorWords.all fun w => w.toList.head? ≠ some c) = true := forall_mem_of_all (by decide)
  have hname : ∀ c ∈ '\'' :: '"' :: markChars, isNameStart c = false :=
    forall_mem_of_all (by decide)
  have hclose : ∀ c ∈ '\'' :: '"' :: markChars, c ≠ '\x7d' := forall_mem_of_all (by decide)
  exact ⟨hblank c hc, hsigns c hc, forall_mem_of_all (hwords c hc), hname c hc, hclose c hc⟩

theorem plainHead_mark {c : Char} (hc : c ∈ markChars) : PlainHead c :=
  plainHead_of_mem (List.mem_cons_of_mem _ (List.mem_cons_of_mem _ hc))

theorem PlainHead.operator? {c : Char} (hc : PlainHead c) (previous : Option Char)
    (cs : List Char) : defaultRules.operator? previous (c :: cs) = none :=
  operator?_of_head hc.signs hc.words

theorem PlainHead.nameLength {c : Char} (hc : PlainHead c) (cs : List Char) :
    nameLength (c :: cs) = 0 := by
  simp [Lexer.nameLength, hc.name]

theorem plainHead_quote (quote : Quote) : PlainHead quote.mark :=
  plainHead_of_mem (by cases quote <;> decide)

def IsGap (gap : List Char) : Prop :=
  ∀ c ∈ gap, Text.isBlank c = true

theorem isGap_nil : IsGap [] := by
  simp [IsGap]

theorem isGap_space : IsGap [' '] :=
  forall_mem_of_all (by decide)

section

variable {gap cs : List Char} {c : Char}

theorem IsGap.takeWhile (hgap : IsGap gap) (hc : Text.isBlank c = false) :
    (gap ++ c :: cs).takeWhile Text.isBlank = gap :=
  takeWhile_append_cons hgap hc

/-- Within a gap and behind it, the text goes on with white space or with the character. -/
theorem IsGap.head_drop (hgap : IsGap gap) {n : Nat} (hn : n ≤ gap.length) :
    ∃ d ds, (gap ++ c :: cs).drop n = d :: ds ∧ (Text.isBlank d = true ∨ d = c) := by
  rw [List.drop_append_of_le_length hn]
  cases hdrop : gap.drop n with
  | nil => exact ⟨c, cs, rfl, .inr rfl⟩
  | cons d ds =>
    have hd : d ∈ gap := List.mem_of_mem_drop (by rw [hdrop]; simp)
    exact ⟨d, _, rfl, .inl (hgap d hd)⟩

/-- Behind white space nothing is found that begins neither with it nor with the character. -/
theorem IsGap.length?_andThen (hgap : IsGap gap) (hc : Text.isBlank c = false) {pattern : Pattern}
    (h : ∀ d ds, Text.isBlank d = true ∨ d = c → pattern (d :: ds) = []) :
    (Pattern.andThen (.run Text.isBlank) pattern).length? (gap ++ c :: cs) = none := by
  rw [Pattern.length?, List.head?_eq_none_iff, List.eq_nil_iff_forall_not_mem]
  intro n hn
  obtain ⟨m, hm, k, hk, -⟩ := Pattern.mem_andThen.1 hn
  rw [Pattern.mem_run, hgap.takeWhile hc] at hm
  obtain ⟨d, ds, hdrop, hd⟩ := hgap.head_drop hm
  rw [hdrop, h d ds hd] at hk
  cases hk

end

theorem literal_of_ne {c d : Char} {cs ds : List Char} (h : d ≠ c) :
    Pattern.literal (d :: ds) (c :: cs) = [] := by
  simp [Pattern.literal, List.isPrefixOf, h]

def closingHeads : List Char :=
  ['-', '~', '%', '\x7d']

theorem isBlank_of_mem_closingHeads : ∀ c ∈ closingHeads, Text.isBlank c = false :=
  forall_mem_of_all (by decide)

theorem not_mem_closingHeads {c d : Char} (hc : c ∉ closingHeads)
    (hd : Text.isBlank d = true ∨ d = c) : d ∉ closingHeads := by
  rintro hmem
  rcases hd with hd | rfl
  · simp [isBlank_of_mem_closingHeads d hmem] at hd
  · exact hc hmem

theorem closing_eq_nil {first : Char} (hfirst : first ∈ closingHeads) (delimiter : List Char)
    (takesBreak : Bool) {d : Char} (hd : d ∉ closingHeads) (ds : List Char) :
    defaultRules.closing (first :: delimiter) takesBreak (d :: ds) = [] := by
  have hne : ∀ c ∈ closingHeads, c ≠ d := by
    rintro c hc rfl
    exact hd hc
  have hall : Pattern.literal (defaultRules.trim :: first :: delimiter) (d :: ds) = [] :=
    literal_of_ne (hne _ (by decide))
  have hline : Pattern.literal (defaultRules.lineTrim :: first :: delimiter) (d :: ds) = [] :=
    literal_of_ne (hne _ (by decide))
  have hplain : Pattern.literal (first :: delimiter) (d :: ds) = [] := literal_of_ne (hne _ hfirst)
  cases takesBreak <;>
    simp only [Rules.closing, Pattern.orElse, Pattern.andThen, hall, hline, hplain,
      List.flatMap_nil, List.append_nil, Bool.false_eq_true, if_false, if_true]

section

variable {gap cs : List Char} {c : Char} (hgap : IsGap gap) (hblank : Text.isBlank c = false)
  (hc : c ∉ closingHeads)

include hgap hblank hc

theorem blockClose_eq_none : defaultRules.blockClose.length? (gap ++ c :: cs) = none :=
  hgap.length?_andThen hblank fun _ ds hd =>
    closing_eq_nil (by decide) _ _ (not_mem_closingHeads hc hd) ds

theorem printClose_eq_none : defaultRules.printClose.length? (gap ++ c :: cs) = none :=
  hgap.length?_andThen hblank fun _ ds hd =>
    closing_eq_nil (by decide) _ _ (not_mem_closingHeads hc hd) ds

theorem interpolationEnd_eq_none : defaultRules.interpolationEnd.length? (gap ++ c :: cs) = none :=
  hgap.length?_andThen hblank fun d _ hd => by
    refine literal_of_ne ?_
    rintro rfl
    exact not_mem_closingHeads hc hd (by decide)

end

theorem not_mem_closingHeads_of_isIdentifierChar {c : Char} (hc : isIdentifierChar c = true) :
    c ∉ closingHeads := by
  have hheads : ∀ d ∈ closingHeads, isIdentifierChar d = false := forall_mem_of_all (by decide)
  intro hmem
  simp [hheads c hmem] at hc

theorem PlainHead.not_mem_closingHeads {c : Char} (hc : PlainHead c) : c ∉ closingHeads := by
  have hheads : ∀ d ∈ closingHeads, d ∈ operatorSigns ∨ d = '\x7d' :=
    forall_mem_of_all (by decide)
  intro hmem
  rcases hheads c hmem with hsign | hbrace
  · exact hc.signs hsign
  · exact hc.close hbrace

theorem PlainHead.printClose {c : Char} (hc : PlainHead c) (cs : List Char) :
    defaultRules.printClose.length? (' ' :: c :: cs) = none :=
  @printClose_eq_none [' '] cs c isGap_space hc.blank hc.not_mem_closingHeads

structure NoOperator (w : Lexeme) : Prop where
  ne_nil : w.chars ≠ []
  blank : w.chars.head?.any Text.isBlank = false
  operator? (previous : Option Char) (more : List Char) :
    defaultRules.operator? previous (w.chars ++ ' ' :: more) = none

theorem noOperator_name {text : String} (h : IsName text) : NoOperator (.name text) := by
  obtain ⟨c, cs, hcs, hc, -⟩ := h.1
  have hblank := isBlank_of_isIdentifierChar (isIdentifierChar_of_start hc)
  constructor
  · simp [Lexeme.chars, hcs]
  · simp [Lexeme.chars, hcs, hblank]
  · intro previous more
    exact operator?_name h (by decide)

theorem PlainHead.noOperator {w : Lexeme} {c : Char} {cs : List Char} (hc : PlainHead c)
    (hw : w.chars = c :: cs) : NoOperator w where
  ne_nil := by simp [hw]
  blank := by simp [hw, hc.blank]
  operator? previous more := by
    rw [hw]
    exact hc.operator? previous _

theorem noOperator_number (n : Nat) : NoOperator (.number n) := by
  obtain ⟨c, cs, hcs, hdigits⟩ := Decimal.toDigits_eq_cons n
  exact (plainHead_of_isDigit (hdigits c (by simp))).noOperator hcs

theorem noOperator_string (quote : Quote) (text : String) : NoOperator (.string quote text) :=
  (plainHead_quote quote).noOperator rfl

theorem noOperator_mark {c : Char} (hc : c ∈ markChars) : NoOperator (.mark c) :=
  (plainHead_mark hc).noOperator rfl

theorem NoOperator.length? {w : Lexeme} (hw : NoOperator w) (previous : Option Char)
    (more : List Char) {operator : Operator} (hoperator : operator ∈ defaultRules.operators) :
    operator.length? previous (w.chars ++ ' ' :: more) = none := by
  have hnone := hw.operator? previous more
  rw [Rules.operator?, List.findSome?_eq_none_iff] at hnone
  exact Option.map_eq_none_iff.1 (hnone operator hoperator)

/-- Where `in` does not match, `not in` does not match either. -/
theorem length?_notIn {cs : List Char} (hblank : ∀ c ∈ cs.head?, Text.isBlank c = false)
    (hin : (wordOperator 'i' ['n'] [] (by simp)).length? (some ' ') cs = none) :
    (wordOperator 'n' ['o', 't'] [['i', 'n']] (by simp)).length? (some ' ')
      ('n' :: 'o' :: 't' :: ' ' :: cs) = none := by
  have hgap : cs.takeWhile Text.isBlank = [] := by
    cases cs with
    | nil => rfl
    | cons c cs => exact List.takeWhile_cons_of_neg (by simp [hblank c (by simp)])
  have hwords : wordsLength? [['n', 'o', 't'], ['i', 'n']] ('n' :: 'o' :: 't' :: ' ' :: cs) =
      (wordsLength? [['i', 'n']] cs).map (4 + ·) := by
    have hspace : (' ' :: cs).takeWhile Text.isBlank = [' '] := by
      rw [List.takeWhile_cons_of_pos (by decide), hgap]
    have hfront : ['n', 'o', 't'].isPrefixOf ('n' :: 'o' :: 't' :: ' ' :: cs) = true := rfl
    conv => lhs; unfold wordsLength?
    simp only [hfront, if_true, List.length_cons, List.length_nil, Nat.zero_add,
      List.drop_succ_cons, List.drop_zero, hspace]
    rfl
  unfold Operator.length? wordOperator at hin ⊢
  simp only [hwords]
  cases h : wordsLength? [['i', 'n']] cs with
  | none => rfl
  | some n =>
    have hdrop : ('n' :: 'o' :: 't' :: ' ' :: cs).drop (4 + n) = cs.drop n := by
      rw [Nat.add_comm]
      rfl
    simp only [h] at hin
    simp only [Option.map_some, hdrop]
    split at hin
    · next hstart => exact absurd hstart (by decide)
    · split at hin
      · next hend =>
        rw [if_neg (by decide), if_pos hend]
      · simp at hin

end TemplateEngine.Lexer
