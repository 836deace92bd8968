import TemplateEngine.Lexer.Step

/-!
The lengths of what a lexer recognises. Main statement: whatever is recognised at the front of a
text is within it.
-/

namespace TemplateEngine.Lexer

open Pattern

namespace Pattern

theorem Bounded.length?_le {pattern : Pattern} (h : Bounded pattern) {cs : List Char} {n : Nat}
    (hn : pattern.length? cs = some n) : n ≤ cs.length :=
  h cs n (List.mem_of_head? hn)

theorem length?_orElse (first second : Pattern) (cs : List Char) :
    (orElse first second).length? cs = (first.length? cs).or (second.length? cs) :=
  List.head?_append

theorem length?_literal_andThen (text : List Char) (second : Pattern) (cs : List Char) :
    (andThen (literal text) second).length? cs =
      if text.isPrefixOf cs then (second.length? (cs.drop text.length)).map (text.length + ·)
      else none := by
  unfold length? andThen literal
  split <;> simp

theorem length?_run (p : Char → Bool) (cs : List Char) :
    (run p).length? cs = some (cs.takeWhile p).length := by
  simp [length?, run, List.range_succ]

end Pattern

section

variable (r : Rules)

theorem bounded_closing (delimiter : List Char) (takesBreak : Bool) :
    Bounded (r.closing delimiter takesBreak) := by
  unfold Rules.closing
  apply Bounded.orElse
  · exact (bounded_literal _).andThen (bounded_run _)
  apply Bounded.orElse
  · exact (bounded_literal _).andThen (bounded_run _)
  · split
    · exact (bounded_literal _).andThen (bounded_literal _).optional
    · exact bounded_literal _

theorem bounded_blockClose : Bounded r.blockClose :=
  (bounded_run _).andThen (bounded_closing r _ _)

theorem bounded_printClose : Bounded r.printClose :=
  (bounded_run _).andThen (bounded_closing r _ _)

theorem bounded_commentClose : Bounded r.commentClose :=
  bounded_closing r _ _

theorem bounded_wordTag (word : String) : Bounded (r.wordTag word) :=
  (bounded_run _).andThen
    ((bounded_literal _).andThen ((bounded_run _).andThen (bounded_closing r _ _)))

theorem bounded_interpolationStart : Bounded r.interpolationStart :=
  (bounded_literal _).andThen (bounded_run _)

theorem bounded_interpolationEnd : Bounded r.interpolationEnd :=
  (bounded_run _).andThen (bounded_literal _)

end

theorem findFirst?_le {α : Type} {read? : List Char → Option α} {cs body : List Char} {result : α}
    {n : Nat} (h : findFirst? read? cs = some (body, result))
    (hn : ∀ rest, read? rest = some result → n ≤ rest.length) : body.length + n ≤ cs.length := by
  obtain ⟨rest, rfl, hrest⟩ := findFirst?_eq_some h
  have := hn rest hrest
  rw [List.length_append]
  omega

theorem realSearch_le {r : Rules} {cs body : List Char} {n : Nat}
    (h : realSearch r cs = some (body, n)) : body.length + n ≤ cs.length :=
  findFirst?_le h fun _ hn => (bounded_commentClose r).length?_le hn

theorem verbatimEnd?_le {r : Rules} {cs : List Char} {trim : Option Trim} {n : Nat}
    (h : r.verbatimEnd? cs = some (trim, n)) : n ≤ cs.length := by
  obtain ⟨mark, -, hmark⟩ := List.exists_of_findSome?_eq_some h
  obtain ⟨m, hm, he⟩ := Option.map_eq_some_iff.1 hmark
  obtain ⟨rfl, rfl⟩ := Prod.mk.inj he
  exact ((bounded_literal _).andThen (bounded_wordTag r _)).length?_le hm

theorem length_markText_le (r : Rules) (cs : List Char) :
    (r.markText (r.trimMark? cs)).length ≤ cs.length := by
  cases cs with
  | nil => exact Nat.zero_le _
  | cons c cs =>
    have hmark : ∀ trim, (r.markText trim).length ≤ 1 := by
      intro trim
      match trim with
      | none => exact Nat.zero_le 1
      | some .all => exact Nat.le_refl 1
      | some .line => exact Nat.le_refl 1
    have := hmark (r.trimMark? (c :: cs))
    rw [List.length_cons]
    omega

theorem tagStart?_le {r : Rules} {offset : Nat} {cs : List Char} {start : TagStart}
    (h : r.tagStart? offset cs = some start) : start.length ≤ cs.length := by
  obtain ⟨opening, hopening, rfl⟩ := Option.map_eq_some_iff.1 h
  have hfront : opening.isPrefixOf cs = true := by simpa using List.find?_some hopening
  have hprefix := (List.isPrefixOf_iff_prefix.1 hfront).length_le
  have hmark := length_markText_le r (cs.drop opening.length)
  rw [List.length_drop] at hmark
  simp only
  omega

/-- The tag starts in a text that stands at `offset` end in it. -/
theorem tagStartsFrom_le {r : Rules} {skip offset : Nat} {cs : List Char} :
    ∀ start ∈ r.tagStartsFrom skip offset cs, start.offset + start.length ≤ offset + cs.length := by
  induction cs generalizing skip offset with
  | nil => simp [Rules.tagStartsFrom]
  | cons c cs ih =>
    have hmore : ∀ skip, ∀ start ∈ r.tagStartsFrom skip (offset + 1) cs,
        start.offset + start.length ≤ offset + (c :: cs).length := by
      intro skip start hstart
      have := ih start hstart
      simp only [List.length_cons]
      omega
    cases skip with
    | succ skip => exact hmore skip
    | zero =>
      intro start hstart
      rw [Rules.tagStartsFrom] at hstart
      split at hstart
      · next first hfirst =>
        rcases List.mem_cons.1 hstart with rfl | hstart
        · have := tagStart?_le hfirst
          obtain ⟨opening, -, rfl⟩ := Option.map_eq_some_iff.1 hfirst
          exact Nat.add_le_add_left this offset
        · exact hmore _ start hstart
      · exact hmore _ start hstart

theorem length_takeWhile_le (p : Char → Bool) (cs : List Char) :
    (cs.takeWhile p).length ≤ cs.length :=
  (List.takeWhile_prefix p).length_le

theorem wordsLength?_le {words : List (List Char)} {cs : List Char} {n : Nat}
    (h : wordsLength? words cs = some n) : n ≤ cs.length := by
  induction words generalizing cs n with
  | nil =>
    obtain rfl := Option.some.inj h
    exact Nat.zero_le _
  | cons word words ih =>
    cases words with
    | nil =>
      simp only [wordsLength?] at h
      split at h
      · next hprefix =>
        obtain rfl := Option.some.inj h
        exact (List.isPrefixOf_iff_prefix.1 hprefix).length_le
      · simp at h
    | cons second words =>
      simp only [wordsLength?] at h
      split at h
      · next hprefix =>
        have hword := (List.isPrefixOf_iff_prefix.1 hprefix).length_le
        have hgap := length_takeWhile_le Text.isBlank (cs.drop word.length)
        split at h
        · simp at h
        · obtain ⟨m, hm, rfl⟩ := Option.map_eq_some_iff.1 h
          have := ih hm
          simp only [List.length_drop] at this hgap
          omega
      · simp at h

theorem operator?_le {r : Rules} {previous : Option Char} {cs : List Char} {operator : Operator}
    {n : Nat} (h : r.operator? previous cs = some (operator, n)) : n ≤ cs.length := by
  obtain ⟨found, -, hfound⟩ := List.exists_of_findSome?_eq_some h
  obtain ⟨m, hm, he⟩ := Option.map_eq_some_iff.1 hfound
  obtain ⟨rfl, rfl⟩ := Prod.mk.inj he
  unfold Operator.length? at hm
  split at hm
  · simp at hm
  · next hwords =>
    split at hm
    · simp at hm
    split at hm
    · simp at hm
    · obtain rfl := Option.some.inj hm
      exact wordsLength?_le hwords

theorem nameLength_le (cs : List Char) : nameLength cs ≤ cs.length := by
  cases cs with
  | nil => exact Nat.zero_le _
  | cons c cs =>
    have := length_takeWhile_le isNameChar cs
    simp only [nameLength, List.length_cons]
    split <;> omega

theorem fractionLength_le (cs : List Char) : fractionLength cs ≤ cs.length := by
  unfold fractionLength
  split
  · next cs =>
    have : digitsLength cs ≤ cs.length := length_takeWhile_le _ _
    simp only [List.length_cons]
    split <;> omega
  · exact Nat.zero_le _

theorem exponentLength_le (cs : List Char) : exponentLength cs ≤ cs.length := by
  cases cs with
  | nil => exact Nat.zero_le _
  | cons c cs =>
    have hdigits : ∀ sign, (if digitsLength (cs.drop sign) = 0 then 0
        else 1 + sign + digitsLength (cs.drop sign)) ≤ (c :: cs).length := by
      intro sign
      have : digitsLength (cs.drop sign) ≤ (cs.drop sign).length := length_takeWhile_le _ _
      simp only [List.length_drop, List.length_cons] at this ⊢
      split <;> omega
    simp only [exponentLength]
    by_cases hmark : (c == 'e' || c == 'E') = true
    · rw [if_pos hmark]
      exact hdigits _
    · rw [if_neg hmark]
      exact Nat.zero_le _

theorem numberLength_le (cs : List Char) : numberLength cs ≤ cs.length := by
  have hwhole : digitsLength cs ≤ cs.length := length_takeWhile_le _ _
  have hfraction := fractionLength_le (cs.drop (digitsLength cs))
  have hexponent := exponentLength_le
    (cs.drop (digitsLength cs + fractionLength (cs.drop (digitsLength cs))))
  simp only [List.length_drop] at hfraction hexponent
  simp only [numberLength]
  split <;> omega

theorem literalBody?_lt {quote : Char} {refused : Char → Bool} {cs body : List Char}
    (h : literalBody? quote refused cs = some body) : body.length < cs.length := by
  fun_induction literalBody? quote refused cs generalizing body with
  | case1 => simp at h
  | case2 => simp_all
  | case3 => simp at h
  | case4 => simp_all
  | case5 c d cs _ _ ih =>
    obtain ⟨rest, hrest, rfl⟩ := Option.map_eq_some_iff.1 h
    have := ih hrest
    simp only [List.length_cons]
    omega
  | case6 => simp at h
  | case7 c d cs _ _ _ ih =>
    obtain ⟨rest, hrest, rfl⟩ := Option.map_eq_some_iff.1 h
    have := ih hrest
    simp only [List.length_cons] at this ⊢
    omega

theorem stringLiteral?_le {cs body : List Char} (h : stringLiteral? cs = some body) :
    body.length + 2 ≤ cs.length := by
  unfold stringLiteral? at h
  split at h
  · have := literalBody?_lt h
    simp only [List.length_cons]
    omega
  · have := literalBody?_lt h
    simp only [List.length_cons]
    omega
  · simp at h

theorem plainLength_le (opening cs : List Char) : plainLength opening cs ≤ cs.length := by
  fun_induction plainLength opening cs with
  | case1 => exact Nat.zero_le _
  | case2 => simp
  | case3 => simp
  | case4 => simp
  | case5 => simp only [List.length_cons]; omega
  | case6 => simp
  | case7 => simp only [List.length_cons] at *; omega

theorem plainLength_cons {opening cs : List Char} {c : Char} (hquote : c ≠ '"')
    (hescape : c ≠ '\\') (h : ¬ opening <+: c :: cs) :
    plainLength opening (c :: cs) = 1 + plainLength opening cs := by
  rw [← List.isPrefixOf_iff_prefix] at h
  cases cs <;> simp [plainLength, hquote, hescape, h]

end TemplateEngine.Lexer
