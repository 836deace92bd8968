import TemplateEngine.Lexer.Rules
import TemplateEngine.Lexer.Word
import TemplateEngine.Proofs.Expr.Printed

/-!
Names, numbers and string literals in front of a space. Main statements: identifiers and digits are
taken whole, and a literal with escaped characters is taken whole and gives its characters back.
-/

namespace TemplateEngine

/-- A property of the members of a list, checked one by one. -/
theorem forall_mem_of_all {α : Type} {p : α → Prop} [DecidablePred p] {l : List α}
    (h : (l.all fun a => p a) = true) : ∀ a ∈ l, p a := by
  intro a ha
  exact of_decide_eq_true (List.all_eq_true.1 h a ha)

theorem isIdentifierChar_of_start {c : Char} (h : isIdentifierStart c = true) :
    isIdentifierChar c = true := by
  unfold isIdentifierStart at h
  unfold isIdentifierChar Char.isAlphanum
  rcases Bool.or_eq_true_iff.1 h with h | h <;> simp [h]

theorem IsIdentifier.forall_isIdentifierChar {text : String} (h : IsIdentifier text) :
    ∀ c ∈ text.toList, isIdentifierChar c = true := by
  obtain ⟨c, cs, htext, hc, hcs⟩ := h
  rw [htext]
  exact List.forall_mem_cons.2 ⟨isIdentifierChar_of_start hc, List.all_eq_true.1 hcs⟩

theorem isName_null : IsName "null" :=
  ⟨⟨'n', ['u', 'l', 'l'], rfl, by decide, by decide⟩, by decide⟩

theorem isName_true : IsName "true" :=
  ⟨⟨'t', ['r', 'u', 'e'], rfl, by decide, by decide⟩, by decide⟩

theorem isName_false : IsName "false" :=
  ⟨⟨'f', ['a', 'l', 's', 'e'], rfl, by decide, by decide⟩, by decide⟩

theorem toNat_of_isAlpha {c : Char} (h : c.isAlpha = true) :
    (65 ≤ c.toNat ∧ c.toNat ≤ 90) ∨ (97 ≤ c.toNat ∧ c.toNat ≤ 122) := by
  have hcases : c.isUpper = true ∨ c.isLower = true := Bool.or_eq_true_iff.1 h
  refine hcases.imp (fun hupper => ?_) (fun hlower => ?_)
  · exact of_decide_eq_true hupper
  · exact (Bool.and_eq_true_iff.1 hlower).imp of_decide_eq_true of_decide_eq_true

theorem toNat_of_isDigit {c : Char} (h : c.isDigit = true) : 48 ≤ c.toNat ∧ c.toNat ≤ 57 := by
  simp only [Char.isDigit, Bool.and_eq_true, decide_eq_true_eq, UInt32.le_iff_toNat_le] at h
  exact h

/-- The code points of identifiers. -/
theorem toNat_of_isIdentifierChar {c : Char} (h : isIdentifierChar c = true) :
    (48 ≤ c.toNat ∧ c.toNat ≤ 57) ∨ (65 ≤ c.toNat ∧ c.toNat ≤ 90) ∨ c.toNat = 95 ∨
      (97 ≤ c.toNat ∧ c.toNat ≤ 122) := by
  simp only [isIdentifierChar, Char.isAlphanum, Bool.or_eq_true, beq_iff_eq] at h
  rcases h with (hletter | hdigit) | rfl
  · rcases toNat_of_isAlpha hletter with hupper | hlower
    · exact .inr (.inl hupper)
    · exact .inr (.inr (.inr hlower))
  · exact .inl (toNat_of_isDigit hdigit)
  · exact .inr (.inr (.inl rfl))

namespace Lexer

theorem isBlank_of_isIdentifierChar {c : Char} (h : isIdentifierChar c = true) :
    Text.isBlank c = false := by
  have := toNat_of_isIdentifierChar h
  unfold Text.isBlank
  simp only [Bool.or_eq_false_iff, Bool.and_eq_false_iff, decide_eq_false_iff_not,
    beq_eq_false_iff_ne]
  omega

theorem isBoundary_of_isIdentifierChar {c : Char} (h : isIdentifierChar c = true) :
    isBoundary c = false := by
  have hne : ∀ d : Char, isIdentifierChar d = false → c ≠ d := by
    rintro d hd rfl
    rw [h] at hd
    simp at hd
  unfold isBoundary
  simp only [isBlank_of_isIdentifierChar h, Bool.false_or, Bool.or_eq_false_iff,
    beq_eq_false_iff_ne]
  exact ⟨⟨⟨hne '(' (by decide), hne ')' (by decide)⟩, hne '[' (by decide)⟩, hne '\x7b' (by decide)⟩

theorem isNameStart_of_isIdentifierStart {c : Char} (h : isIdentifierStart c = true) :
    isNameStart c = true := by
  unfold isIdentifierStart at h
  unfold isNameStart
  rw [h, Bool.true_or]

theorem isNameChar_of_isIdentifierChar {c : Char} (h : isIdentifierChar c = true) :
    isNameChar c = true := by
  simp only [isIdentifierChar, Char.isAlphanum, Bool.or_eq_true] at h
  unfold isNameChar isNameStart
  rcases h with (h | h) | h <;> simp [h]

theorem isNameStart_of_isDigit {c : Char} (h : c.isDigit = true) : isNameStart c = false := by
  have hc := toNat_of_isDigit h
  have hletter : c.isAlpha = false := by
    rw [Bool.eq_false_iff]
    intro halpha
    have := toNat_of_isAlpha halpha
    omega
  have hunderscore : (c == '_') = false := by
    rw [beq_eq_false_iff_ne]
    rintro rfl
    simp at h
  unfold isNameStart
  simp only [hletter, hunderscore, Bool.or_self, Bool.false_or, decide_eq_false_iff_not]
  omega

variable {cs more : List Char} {c d : Char}

theorem takeWhile_append_cons {p : Char → Bool} (hcs : ∀ c ∈ cs, p c = true) (hd : p d = false) :
    (cs ++ d :: more).takeWhile p = cs := by
  rw [List.takeWhile_append_of_pos hcs, List.takeWhile_cons_of_neg (by simp [hd]),
    List.append_nil]

theorem nameLength_identifier {text : String} (h : IsIdentifier text) (hd : isNameChar d = false) :
    nameLength (text.toList ++ d :: more) = text.toList.length := by
  obtain ⟨c, cs, htext, hc, hall⟩ := h
  have hcs : ∀ d ∈ cs, isNameChar d = true := fun d hd =>
    isNameChar_of_isIdentifierChar (List.all_eq_true.1 hall d hd)
  rw [htext, List.cons_append, nameLength, if_pos (isNameStart_of_isIdentifierStart hc),
    takeWhile_append_cons hcs hd, List.length_cons]
  omega

theorem digitsLength_digits (hcs : ∀ c ∈ cs, c.isDigit = true) (hd : d.isDigit = false) :
    digitsLength (cs ++ d :: more) = cs.length := by
  rw [digitsLength, takeWhile_append_cons hcs hd]

/-- A number is its digits with the fraction and the exponent behind them. -/
theorem numberLength_digits (hcs : ∀ c ∈ cs, c.isDigit = true) (hne : cs ≠ [])
    (hd : d.isDigit = false) :
    numberLength (cs ++ d :: more) = cs.length + fractionLength (d :: more) +
      exponentLength ((d :: more).drop (fractionLength (d :: more))) := by
  have hlength : cs.length ≠ 0 := by simpa using hne
  unfold numberLength
  simp only [digitsLength_digits hcs hd, if_neg hlength, ← List.drop_drop, List.drop_left]

theorem numberLength_of_not_isDigit (hc : c.isDigit = false) : numberLength (c :: cs) = 0 := by
  have : digitsLength (c :: cs) = 0 := by
    rw [digitsLength, List.takeWhile_cons_of_neg (by simp [hc])]
    rfl
  simp [numberLength, this]

theorem unescape_cons (hc : c ≠ '\\') : unescape (c :: cs) = c :: unescape cs := by
  cases cs with
  | nil => rfl
  | cons d cs =>
    rw [unescape, if_neg (by simpa using hc)]

variable (quote : Quote)

/-- What stands for a character between quotes: the character itself, or one behind a backslash that
stands for it. -/
theorem escapeChar_cases (c : Char) :
    (∃ d, quote.escapeChar c = ['\\', d] ∧ unescapeChar d = c) ∨
      (quote.escapeChar c = [c] ∧ c ≠ '\\' ∧ c ≠ quote.mark ∧ c ≠ '#') := by
  unfold Quote.escapeChar
  split
  · next h =>
    rw [beq_iff_eq] at h
    exact .inl ⟨'r', rfl, by rw [h]; rfl⟩
  · split
    · next h =>
      refine .inl ⟨c, rfl, ?_⟩
      simp only [Bool.or_eq_true, beq_iff_eq] at h
      rcases h with (rfl | rfl) | rfl
      · rfl
      · cases quote <;> rfl
      · rfl
    · next h =>
      simp only [Bool.or_eq_true, beq_iff_eq, not_or] at h
      exact .inr ⟨rfl, h.1.1, h.1.2, h.2⟩

theorem unescape_escape (cs : List Char) : unescape (quote.escape cs) = cs := by
  induction cs with
  | nil => rfl
  | cons c cs ih =>
    rw [Quote.escape] at ih ⊢
    rw [List.flatMap_cons]
    rcases escapeChar_cases quote c with ⟨d, hd, hc⟩ | ⟨hself, hbackslash, -, -⟩
    · rw [hd]
      simp only [List.cons_append, List.nil_append, unescape, beq_self_eq_true, if_true, ih, hc]
    · rw [hself, List.singleton_append, unescape_cons hbackslash, ih]

/-- Escaped characters are taken up to the quote behind them, whatever must be protected. -/
theorem literalBody?_escape {refused : Char → Bool} (hrefused : ∀ c, refused c = true → c = '#')
    (cs : List Char) (d : Char) :
    literalBody? quote.mark refused (quote.escape cs ++ quote.mark :: d :: more) =
      some (quote.escape cs) := by
  have hmark : quote.mark ≠ '\\' := by cases quote <;> decide
  induction cs with
  | nil =>
    show literalBody? quote.mark refused (quote.mark :: d :: more) = some []
    rw [literalBody?, if_pos (beq_self_eq_true _)]
  | cons c cs ih =>
    rw [Quote.escape] at ih ⊢
    rw [List.flatMap_cons, List.append_assoc]
    rcases escapeChar_cases quote c with ⟨e, he, -⟩ | ⟨hself, hbackslash, hquote, hnumber⟩
    · have hne : ('\\' == quote.mark) = false := beq_eq_false_iff_ne.2 hmark.symm
      rw [he]
      simp only [List.cons_append, List.nil_append, literalBody?, hne, Bool.false_eq_true, if_false,
        beq_self_eq_true, if_true, ih, Option.map_some]
    · have hplain : refused c = false := by
        rw [Bool.eq_false_iff]
        intro h
        exact hnumber (hrefused c h)
      obtain ⟨e, es, hes⟩ := List.exists_cons_of_ne_nil (l := cs.flatMap quote.escapeChar ++
        quote.mark :: d :: more) (by simp)
      rw [hself, List.singleton_append, hes]
      rw [hes] at ih
      rw [literalBody?, if_neg (by simpa using hquote), if_neg (by simpa using hbackslash), hplain,
        ih]
      rfl

theorem stringLiteral?_escape (cs : List Char) (d : Char) :
    stringLiteral? (quote.mark :: (quote.escape cs ++ quote.mark :: d :: more)) =
      some (quote.escape cs) := by
  cases quote with
  | single =>
    have hrefused : ∀ c : Char, false = true → c = '#' := by simp
    exact literalBody?_escape .single hrefused cs d
  | double =>
    have hrefused : ∀ c : Char, (c == '#') = true → c = '#' := by simp
    exact literalBody?_escape .double hrefused cs d

end Lexer

end TemplateEngine
