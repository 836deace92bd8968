import TemplateEngine.Proofs.Decimal.Numerals
import TemplateEngine.Proofs.Lexer.Gaps

/-!
Numbers of templates as the lexer takes them. Main statements: what it takes as a number is a
numeral with a digit in front and one behind the point if there is one, and it takes every such
numeral up to the space behind it.
-/

namespace TemplateEngine.Lexer

open Decimal

variable {cs : List Char}

theorem take_digitsLength (cs : List Char) :
    cs.take (digitsLength cs) = cs.takeWhile Char.isDigit :=
  (List.prefix_iff_eq_take.1 (List.takeWhile_prefix _)).symm

/-- What is taken as an exponent is one. -/
theorem exists_exponent (cs : List Char) :
    ∃ e : Option Exponent, cs.take (exponentLength cs) = e.elim [] Exponent.text := by
  fun_cases exponentLength cs with
  | case1 => exact ⟨none, rfl⟩
  | case2 | case4 => exact ⟨none, List.take_zero⟩
  | case3 c cs hmark sign digits hdigits =>
    obtain ⟨signChar, hsign, hchar⟩ : ∃ signChar : Option Char,
        (∀ c ∈ signChar, c = '+' ∨ c = '-') ∧ cs.take sign = signChar.toList := by
      dsimp only [sign]
      split
      · exact ⟨some '+', by simp, rfl⟩
      · exact ⟨some '-', by simp, rfl⟩
      · exact ⟨none, by simp, rfl⟩
    refine ⟨some ⟨c, signChar, (cs.drop sign).takeWhile Char.isDigit, by simpa using hmark, hsign,
      fun h => hdigits (by simp [digits, digitsLength, h]),
      fun _ => List.mem_takeWhile_imp⟩, ?_⟩
    rw [add_assoc, add_comm, List.take_succ_cons, List.take_add, hchar, take_digitsLength]
    rfl

/-- What is taken as a fraction is a point with digits. -/
theorem exists_fraction (cs : List Char) :
    ∃ digits : Option (List Char), digits ≠ some [] ∧
      (∀ ds ∈ digits, ∀ c ∈ ds, c.isDigit = true) ∧
        cs.take (fractionLength cs) = digits.elim [] ('.' :: ·) := by
  fun_cases fractionLength cs with
  | case1 | case3 => exact ⟨none, by simp, by simp, List.take_zero⟩
  | case2 cs hdigits =>
    refine ⟨some (cs.takeWhile Char.isDigit), fun h => hdigits ?_, ?_, ?_⟩
    · rw [digitsLength, Option.some.inj h]
      rfl
    · rintro ds hds c hc
      obtain rfl := Option.some.inj hds
      exact List.mem_takeWhile_imp hc
    · rw [add_comm, List.take_succ_cons, take_digitsLength]
      rfl

/-- What the lexer takes as a number is one. -/
theorem exists_numeral (h : numberLength cs ≠ 0) :
    ∃ n : Numeral, n.IsNumber ∧ n.text = cs.take (numberLength cs) := by
  have hwhole : digitsLength cs ≠ 0 := fun heq => h (by simp [numberLength, heq])
  obtain ⟨digits, hne, hdigits, hfraction⟩ := exists_fraction (cs.drop (digitsLength cs))
  obtain ⟨exponent, hexponent⟩ := exists_exponent
    (cs.drop (digitsLength cs + fractionLength (cs.drop (digitsLength cs))))
  refine ⟨⟨cs.takeWhile Char.isDigit, digits, exponent, fun _ => List.mem_takeWhile_imp, hdigits⟩,
    ⟨fun hnil => hwhole (congrArg List.length hnil), hne⟩, ?_⟩
  simp only [numberLength, if_neg hwhole, List.take_add, hfraction, hexponent, take_digitsLength]
  rfl

/-- Behind the digits of a numeral in front of a space stands no digit. -/
theorem exists_exponentText (n : Numeral) (more : List Char) :
    ∃ c cs, n.exponentText ++ ' ' :: more = c :: cs ∧ c.isDigit = false ∧ c ≠ '.' := by
  unfold Numeral.exponentText
  cases n.exponent with
  | none => exact ⟨' ', more, rfl, by decide, by decide⟩
  | some e => exact ⟨e.mark, _, rfl, e.isDigit_mark⟩

theorem exponentLength_text (e : Exponent) (more : List Char) :
    exponentLength (e.text ++ ' ' :: more) = e.text.length := by
  have hlength : digitsLength (e.digits ++ ' ' :: more) = e.digits.length :=
    digitsLength_digits e.isDigit (by decide)
  have hnonzero : e.digits.length ≠ 0 := by simpa using e.digits_ne
  have hmark : (e.mark == 'e' || e.mark == 'E') = true := by simpa using e.mark_eq
  rw [Exponent.text, List.cons_append, List.append_assoc]
  unfold exponentLength
  simp -zeta only [hmark, if_true]
  extract_lets sign digits
  have hsign : sign = e.sign.toList.length := by
    dsimp only [sign]
    cases hs : e.sign with
    | none =>
      obtain ⟨d, ds, hd⟩ := List.exists_cons_of_ne_nil e.digits_ne
      have hdigit := e.isDigit d (by simp [hd])
      rw [Option.toList_none, List.nil_append, hd, List.cons_append]
      split
      · next h => simp [(List.cons.inj h).1] at hdigit
      · next h => simp [(List.cons.inj h).1] at hdigit
      · rfl
    | some c => rcases e.sign_eq c hs with rfl | rfl <;> rfl
  have hdigits : digits = e.digits.length := by
    dsimp only [digits]
    rw [hsign, List.drop_left, hlength]
  rw [hdigits, hsign, if_neg hnonzero, List.length_cons, List.length_append]
  omega

/-- The lexer takes a number up to the space behind it. -/
theorem numberLength_text {n : Numeral} (h : n.IsNumber) (more : List Char) :
    numberLength (n.text ++ ' ' :: more) = n.text.length := by
  obtain ⟨hne, hfraction⟩ := h
  have hexponent : exponentLength (n.exponentText ++ ' ' :: more) = n.exponentText.length := by
    unfold Numeral.exponentText
    cases n.exponent with
    | none => rfl
    | some e => exact exponentLength_text e more
  obtain ⟨c, cs, hbehind, hc, hpoint⟩ := exists_exponentText n more
  have hlength : n.text.length =
      n.whole.length + n.fractionText.length + n.exponentText.length := by
    rw [Numeral.text, List.length_append, List.length_append]
  have htext : n.text ++ ' ' :: more =
      n.whole ++ (n.fractionText ++ (n.exponentText ++ ' ' :: more)) := by
    simp [Numeral.text]
  rw [htext, hlength, hbehind]
  rw [hbehind] at hexponent
  unfold Numeral.fractionText
  cases hdigits : n.fraction with
  | none =>
    have hzero : fractionLength (c :: cs) = 0 := by
      rw [fractionLength]
      exact fun _ h => hpoint (List.cons.inj h).1
    rw [Option.elim_none, List.nil_append, numberLength_digits n.isDigit_whole hne hc, hzero,
      List.drop_zero, hexponent]
    rfl
  | some ds =>
    have hds : ds.length ≠ 0 := by
      rintro hnil
      exact hfraction (by rw [hdigits, List.length_eq_zero_iff.1 hnil])
    have hone : fractionLength ('.' :: (ds ++ c :: cs)) = ds.length + 1 := by
      rw [fractionLength, digitsLength_digits (n.isDigit_fraction ds hdigits) hc, if_neg hds,
        add_comm]
    rw [Option.elim_some, List.cons_append, numberLength_digits n.isDigit_whole hne (by decide),
      hone, List.drop_succ_cons, List.drop_left, hexponent]
    rfl

/-- A number is written in letters, digits and marks. -/
theorem carriageReturn_notMem_text (n : Numeral) : '\r' ∉ n.text := by
  have hdigits : ∀ ds : List Char, (∀ c ∈ ds, c.isDigit = true) → '\r' ∉ ds :=
    fun _ hds hmem => absurd (hds _ hmem) (by decide)
  simp only [Numeral.text, List.mem_append, not_or]
  refine ⟨⟨hdigits _ n.isDigit_whole, ?_⟩, ?_⟩
  · unfold Numeral.fractionText
    cases hds : n.fraction with
    | none => exact List.not_mem_nil
    | some ds =>
      have hpoint : '\r' ≠ '.' := by decide
      exact List.not_mem_cons_of_ne_of_not_mem hpoint (hdigits ds (n.isDigit_fraction ds hds))
  · unfold Numeral.exponentText
    cases n.exponent with
    | none => exact List.not_mem_nil
    | some e =>
      have hmark : '\r' ≠ e.mark := by
        rcases e.mark_eq with h | h <;> rw [h] <;> decide
      have hsign : '\r' ∉ e.sign.toList := by
        intro hmem
        rcases e.sign_eq _ (Option.mem_toList.1 hmem) with h | h <;> exact absurd h (by decide)
      exact List.not_mem_cons_of_ne_of_not_mem hmark (by simp [hsign, hdigits _ e.isDigit])

/-- A number in a print tag is read as one token. -/
theorem reaches_numeral {comments : Comments} {n : Numeral} (hn : n.IsNumber) {s : State}
    {gap more : List Char} (hgap : IsGap gap) (hs : InPrint s (gap ++ (n.text ++ ' ' :: more))) :
    ∃ t token, Reaches defaultRules comments s [token] t ∧
      token.spelling = (.number, String.ofList n.text) ∧ InPrint t (' ' :: more) := by
  obtain ⟨c, cs, hwhole⟩ := List.exists_cons_of_ne_nil hn.1
  have hlength := numberLength_text hn more
  obtain ⟨ds, htext⟩ : ∃ ds, n.text = c :: ds := by
    rw [Numeral.text, hwhole]
    exact ⟨_, rfl⟩
  rw [htext] at hs hlength ⊢
  exact reaches_number comments hgap (n.isDigit_whole c (by simp [hwhole])) hlength hs

end TemplateEngine.Lexer
