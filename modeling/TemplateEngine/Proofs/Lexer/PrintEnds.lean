import Mathlib.Data.List.Infix
import TemplateEngine.Proofs.Lexer.TagStarts

/-!
What a lexer recognises in front of the plain end of a print tag. Main statement: under the default
rules nothing that is recognised there goes over that end or depends on what stands behind it,
except for the end itself when only its second brace is left, and for strings that do not end in
front of it.
-/

namespace TemplateEngine.Lexer

variable {cs behind : List Char}

/-- White space, words, numbers and operators end in front of these characters at the latest. -/
def stopChars : List Char :=
  ['"', '\x7d']

theorem refused_of_stop {p : Char → Bool} {c : Char} (hstop : c ∈ stopChars)
    (hp : stopChars.any p = false) : p c = false := by
  simpa using List.any_eq_false.1 hp c hstop

theorem ne_of_stop {c d : Char} (hstop : c ∈ stopChars) (hd : d ∉ stopChars) : d ≠ c := by
  rintro rfl
  exact hd hstop

theorem takeWhile_append_of_mem {p : Char → Bool} {c : Char} (hc : c ∈ cs) (hp : p c = false) :
    (cs ++ behind).takeWhile p = cs.takeWhile p := by
  have hlength : (cs.takeWhile p).length ≠ cs.length := by
    intro h
    have hall := (List.takeWhile_prefix (l := cs) p).eq_of_length h
    have := List.mem_takeWhile_imp (hall.symm ▸ hc)
    simp [hp] at this
  rw [List.takeWhile_append, if_neg hlength]

theorem mem_drop_of_not_mem_take {c : Char} {n : Nat} (hc : c ∈ cs) (hn : c ∉ cs.take n) :
    c ∈ cs.drop n := by
  rw [← List.take_append_drop n cs] at hc
  exact (List.mem_append.1 hc).resolve_left hn

theorem mem_drop_takeWhile {p : Char → Bool} {c : Char} (hc : c ∈ cs) (hp : p c = false) :
    c ∈ cs.drop (cs.takeWhile p).length := by
  refine mem_drop_of_not_mem_take hc fun hmem => ?_
  rw [← List.prefix_iff_eq_take.1 (List.takeWhile_prefix p)] at hmem
  have := List.mem_takeWhile_imp hmem
  simp [hp] at this

theorem prefix_append_iff_of_mem {text : List Char} {c : Char} (hc : c ∈ cs) (htext : c ∉ text) :
    text <+: cs ++ behind ↔ text <+: cs := by
  refine ⟨fun h => ?_, fun h => h.trans (List.prefix_append _ _)⟩
  rcases Nat.le_total text.length cs.length with hle | hle
  · exact List.prefix_of_prefix_length_le h (List.prefix_append _ _) hle
  · have := List.prefix_of_prefix_length_le (List.prefix_append cs behind) h hle
    exact absurd (this.subset hc) htext

theorem isPrefixOf_append {text : List Char} (h : text <+: cs ++ behind → text <+: cs) :
    text.isPrefixOf (cs ++ behind) = text.isPrefixOf cs := by
  rw [Bool.eq_iff_iff, List.isPrefixOf_iff_prefix, List.isPrefixOf_iff_prefix]
  exact ⟨h, fun htext => htext.trans (List.prefix_append _ _)⟩

theorem isPrefixOf_append_of_mem {text : List Char} {c : Char} (hc : c ∈ cs) (htext : c ∉ text) :
    text.isPrefixOf (cs ++ behind) = text.isPrefixOf cs :=
  isPrefixOf_append (prefix_append_iff_of_mem hc htext).1

theorem lt_length_of_mem_drop {c : Char} {n : Nat} (h : c ∈ cs.drop n) : n < cs.length := by
  have := List.length_pos_of_mem h
  rw [List.length_drop] at this
  omega

section

variable {stop : Char} (hstop : stop ∈ stopChars)
include hstop

theorem nameLength_append (hc : stop ∈ cs) : nameLength (cs ++ behind) = nameLength cs := by
  cases cs with
  | nil => simp at hc
  | cons c cs =>
    rw [List.cons_append, nameLength, nameLength]
    split
    · next hstart =>
      have hmem : stop ∈ cs := by
        rcases List.mem_cons.1 hc with rfl | hmem
        · rw [refused_of_stop (p := isNameStart) hstop (by decide)] at hstart
          simp at hstart
        · exact hmem
      rw [takeWhile_append_of_mem hmem (refused_of_stop hstop (by decide))]
    · rfl

theorem digitsLength_append (hc : stop ∈ cs) : digitsLength (cs ++ behind) = digitsLength cs := by
  rw [digitsLength, digitsLength,
    takeWhile_append_of_mem hc (refused_of_stop hstop (by decide))]

omit hstop in
theorem mem_of_mem_cons_of_ne {c d : Char} (h : d ∈ c :: cs) (hne : c ≠ d) : d ∈ cs :=
  (List.mem_cons.1 h).resolve_left hne.symm

theorem fractionLength_append (hc : stop ∈ cs) :
    fractionLength (cs ++ behind) = fractionLength cs := by
  cases cs with
  | nil => simp at hc
  | cons c cs =>
    by_cases hpoint : c = '.'
    · subst hpoint
      have hmem := mem_of_mem_cons_of_ne hc (ne_of_stop hstop (by decide))
      rw [List.cons_append, fractionLength, fractionLength, digitsLength_append hstop hmem]
    · rw [List.cons_append, fractionLength, fractionLength]
      all_goals
        intro cs he
        exact hpoint (List.cons.inj he).1

/-- The sign of an exponent does not depend on what stands behind the text. -/
theorem exponentLength_cons_append {c : Char} (hc : stop ∈ cs) :
    exponentLength (c :: (cs ++ behind)) = exponentLength (c :: cs) := by
  obtain ⟨d, ds, rfl⟩ := List.exists_cons_of_ne_nil (List.ne_nil_of_mem hc)
  have hsign : d = '+' ∨ d = '-' → stop ∈ ds := by
    rintro (rfl | rfl)
    · exact mem_of_mem_cons_of_ne hc (ne_of_stop hstop (by decide))
    · exact mem_of_mem_cons_of_ne hc (ne_of_stop hstop (by decide))
  simp only [exponentLength, List.cons_append]
  by_cases hplus : d = '+'
  · subst hplus
    simp only [List.drop_succ_cons, List.drop_zero, digitsLength_append hstop (hsign (.inl rfl))]
  by_cases hminus : d = '-'
  · subst hminus
    simp only [List.drop_succ_cons, List.drop_zero, digitsLength_append hstop (hsign (.inr rfl))]
  · have := @digitsLength_append (d :: ds) behind _ hstop hc
    simp only [List.cons_append] at this
    split <;> simp_all

theorem exponentLength_append (hc : stop ∈ cs) :
    exponentLength (cs ++ behind) = exponentLength cs := by
  cases cs with
  | nil => simp at hc
  | cons c cs =>
    by_cases hmark : (c == 'e' || c == 'E') = true
    · have hne : c ≠ stop := by
        rintro rfl
        rw [refused_of_stop (p := fun c => c == 'e' || c == 'E') hstop (by decide)] at hmark
        simp at hmark
      exact exponentLength_cons_append hstop (mem_of_mem_cons_of_ne hc hne)
    · simp only [List.cons_append, exponentLength, hmark, Bool.false_eq_true, if_false]

theorem mem_drop_fractionLength (hc : stop ∈ cs) : stop ∈ cs.drop (fractionLength cs) := by
  unfold fractionLength
  split
  · next cs =>
    have hmem : stop ∈ cs := mem_of_mem_cons_of_ne hc (ne_of_stop hstop (by decide))
    split
    · exact hc
    · rw [Nat.add_comm, List.drop_succ_cons]
      exact mem_drop_takeWhile hmem (refused_of_stop hstop (by decide))
  · exact hc

omit hstop in
theorem drop_append_of_mem {c : Char} {n : Nat} (h : c ∈ cs.drop n) :
    (cs ++ behind).drop n = cs.drop n ++ behind :=
  List.drop_append_of_le_length (lt_length_of_mem_drop h).le

theorem numberLength_append (hc : stop ∈ cs) : numberLength (cs ++ behind) = numberLength cs := by
  have hwhole : stop ∈ cs.drop (digitsLength cs) :=
    mem_drop_takeWhile hc (refused_of_stop hstop (by decide))
  have hfraction := mem_drop_fractionLength hstop hwhole
  rw [List.drop_drop] at hfraction
  unfold numberLength
  simp only [digitsLength_append hstop hc, drop_append_of_mem hwhole,
    fractionLength_append hstop hwhole, drop_append_of_mem hfraction,
    exponentLength_append hstop hfraction]

/-- Words without such a character are found alike, and do not go over one. -/
theorem wordsLength?_append {words : List (List Char)} (hwords : ∀ w ∈ words, stop ∉ w)
    (hc : stop ∈ cs) :
    wordsLength? words (cs ++ behind) = wordsLength? words cs ∧
      ∀ n ∈ wordsLength? words cs, stop ∈ cs.drop n := by
  induction words generalizing cs with
  | nil => simp [wordsLength?, hc]
  | cons word words ih =>
    have hword := hwords word (List.mem_cons_self ..)
    have hfront := @isPrefixOf_append_of_mem cs behind word _ hc hword
    have hbehind : word.isPrefixOf cs = true → stop ∈ cs.drop word.length := by
      intro hprefix
      refine mem_drop_of_not_mem_take hc ?_
      rwa [← List.prefix_iff_eq_take.1 (List.isPrefixOf_iff_prefix.1 hprefix)]
    cases words with
    | nil =>
      refine ⟨by simp only [wordsLength?, hfront], fun n hn => ?_⟩
      simp only [wordsLength?] at hn
      split at hn
      · next hprefix =>
        obtain rfl := Option.some.inj hn
        exact hbehind hprefix
      · simp at hn
    | cons second words =>
      simp only [wordsLength?, hfront]
      split
      · next hprefix =>
        have hrest := hbehind hprefix
        have hblank : Text.isBlank stop = false := refused_of_stop hstop (by decide)
        have hgap := mem_drop_takeWhile hrest hblank
        rw [List.drop_drop] at hgap
        obtain ⟨hsame, hinside⟩ := ih (fun w hw => hwords w (List.mem_cons_of_mem _ hw)) hgap
        rw [drop_append_of_mem hrest, takeWhile_append_of_mem hrest hblank,
          drop_append_of_mem hgap, hsame]
        refine ⟨rfl, fun n hn => ?_⟩
        split at hn
        · simp at hn
        · obtain ⟨m, hm, rfl⟩ := Option.map_eq_some_iff.1 hn
          rw [← List.drop_drop]
          exact hinside m hm
      · simp

theorem operator_length?_append {operator : Operator} (hwords : ∀ w ∈ operator.words, stop ∉ w)
    (hc : stop ∈ cs) (previous : Option Char) :
    operator.length? previous (cs ++ behind) = operator.length? previous cs := by
  obtain ⟨hsame, hinside⟩ := @wordsLength?_append cs behind _ hstop _ hwords hc
  unfold Operator.length?
  rw [hsame]
  cases hlength : wordsLength? operator.words cs with
  | none => rfl
  | some n =>
    have hn := hinside n hlength
    have hhead : ((cs ++ behind).drop n).head? = (cs.drop n).head? := by
      obtain ⟨d, ds, hd⟩ := List.exists_cons_of_ne_nil (List.ne_nil_of_mem hn)
      rw [drop_append_of_mem hn, hd, List.cons_append, List.head?_cons, List.head?_cons]
    simp only [hhead]

omit hstop in
theorem findSome?_congr {α β : Type} {f g : α → Option β} {xs : List α}
    (h : ∀ x ∈ xs, f x = g x) : xs.findSome? f = xs.findSome? g := by
  induction xs with
  | nil => rfl
  | cons x xs ih =>
    rw [List.findSome?_cons, List.findSome?_cons, h x (List.mem_cons_self ..),
      ih fun y hy => h y (List.mem_cons_of_mem _ hy)]

theorem operator?_append (hc : stop ∈ cs) (previous : Option Char) :
    defaultRules.operator? previous (cs ++ behind) = defaultRules.operator? previous cs := by
  have hall : ∀ c ∈ stopChars, ∀ operator ∈ defaultRules.operators, ∀ w ∈ operator.words,
      c ∉ w := forall_mem_of_all (by decide)
  unfold Rules.operator?
  apply findSome?_congr
  intro operator hoperator
  rw [operator_length?_append hstop (hall stop hstop operator hoperator) hc]

end

theorem literalBody?_append {quote : Char} {refused : Char → Bool} {body : List Char}
    (h : literalBody? quote refused cs = some body) :
    literalBody? quote refused (cs ++ behind) = some body := by
  fun_induction literalBody? quote refused cs generalizing body with
  | case1 => simp at h
  | case2 c hquote =>
    cases behind <;> simp_all [literalBody?]
  | case3 => simp at h
  | case4 c d cs hquote => simp_all [literalBody?]
  | case5 c d cs hquote hescape ih =>
    obtain ⟨rest, hrest, rfl⟩ := Option.map_eq_some_iff.1 h
    simp [literalBody?, hquote, hescape, ih hrest]
  | case6 => simp at h
  | case7 c d cs hquote hescape hrefused ih =>
    obtain ⟨rest, hrest, rfl⟩ := Option.map_eq_some_iff.1 h
    simp only [List.cons_append] at ih
    simp [literalBody?, hquote, hescape, hrefused, ih hrest]

theorem stringLiteral?_append {body : List Char} (h : stringLiteral? cs = some body) :
    stringLiteral? (cs ++ behind) = some body := by
  unfold stringLiteral? at h
  split at h
  · exact literalBody?_append h
  · exact literalBody?_append h
  · simp at h

/-- A literal that is not closed in a text is refused whatever stands behind, or plain up to the
end. -/
theorem literalBody?_eq_none (h : literalBody? '"' (· == '#') cs = none) :
    literalBody? '"' (· == '#') (cs ++ behind) = none ∨
      plainLength ['#', '\x7b'] cs = cs.length := by
  generalize hrefused : (fun c : Char => c == '#') = refused at *
  fun_induction literalBody? '"' refused cs with
  | case1 => exact .inr rfl
  | case2 => simp at h
  | case3 c hquote =>
    right
    simp_all [plainLength, List.isPrefixOf]
  | case4 => simp at h
  | case5 c d cs hquote hescape ih =>
    rcases ih (Option.map_eq_none_iff.1 h) with hmore | hmore
    · simp [literalBody?, hquote, hescape, hmore]
    · right
      simp_all [plainLength]
      omega
  | case6 c d cs hquote hescape hc =>
    left
    simp [literalBody?, hquote, hescape, hc]
  | case7 c d cs hquote hescape hc ih =>
    rcases ih (Option.map_eq_none_iff.1 h) with hmore | hmore
    · left
      simp only [List.cons_append] at hmore
      simp [literalBody?, hquote, hescape, hc, hmore]
    · right
      have hc : '#' ≠ c := by
        rintro rfl
        simp [← hrefused] at hc
      rw [plainLength_cons (by simpa using hquote) (by simpa using hescape)
        (by simp [List.cons_prefix_cons, hc]), hmore, Nat.add_comm]
      rfl

theorem plainLength_append (h : plainLength ['#', '\x7b'] cs < cs.length) :
    plainLength ['#', '\x7b'] (cs ++ behind) = plainLength ['#', '\x7b'] cs := by
  generalize hopening : ['#', '\x7b'] = opening at *
  fun_induction plainLength opening cs with
  | case1 => simp at h
  | case2 c hc =>
    subst hopening
    cases behind <;> simp_all [plainLength, List.isPrefixOf]
  | case3 => simp at h
  | case4 c d cs hc => simp [plainLength, hc]
  | case5 c d cs hquote hescape ih =>
    have := ih (by simp only [List.length_cons] at h; omega)
    simp [plainLength, hquote, hescape, this]
  | case6 c d cs hquote hescape hc =>
    have hfront : opening.isPrefixOf (c :: d :: (cs ++ behind)) = true := by
      rw [List.isPrefixOf_iff_prefix] at hc ⊢
      exact hc.trans (List.prefix_append _ behind)
    simp [plainLength, hquote, hescape, hfront]
  | case7 c d cs hquote hescape hc ih =>
    have := ih (by simp only [List.length_cons] at h ⊢; omega)
    rw [List.cons_append, plainLength_cons (by simpa using hquote) (by simpa using hescape), this]
    rw [List.isPrefixOf_iff_prefix] at hc
    subst hopening
    simpa [List.cons_prefix_cons] using hc

/-- What can be left of a text that ends with a plain closing delimiter of print tags: its second
brace, or more with both braces and no mark in front of them. -/
def PrintEnd (cs : List Char) : Prop :=
  cs = ['\x7d'] ∨
    ['\x7d', '\x7d'] <:+ cs ∧ ¬ ['-', '\x7d', '\x7d'] <:+ cs ∧ ¬ ['~', '\x7d', '\x7d'] <:+ cs

instance : DecidablePred PrintEnd :=
  fun _ => inferInstanceAs (Decidable (_ ∨ _))

theorem PrintEnd.suffix {more : List Char} (h : PrintEnd cs) (hmore : more <:+ cs)
    (hne : more ≠ []) : PrintEnd more := by
  rcases h with rfl | ⟨hend, hall, hline⟩
  · rcases List.suffix_cons_iff.1 hmore with rfl | hmore
    · exact .inl rfl
    · exact absurd (List.suffix_nil.1 hmore) hne
  · rcases Nat.lt_or_ge more.length 2 with hlength | hlength
    · obtain ⟨c, rfl⟩ : ∃ c, more = [c] := by
        have := List.length_pos_iff.2 hne
        exact List.length_eq_one_iff.1 (by omega)
      have := List.suffix_of_suffix_length_le hmore hend (by simp)
      left
      simpa [List.suffix_cons_iff] using this
    · exact .inr ⟨List.suffix_of_suffix_length_le hend hmore hlength,
        fun h => hall (h.trans hmore), fun h => hline (h.trans hmore)⟩

theorem PrintEnd.getLast?_eq (h : PrintEnd cs) : cs.getLast? = some '\x7d' := by
  rcases h with rfl | ⟨⟨front, rfl⟩, -⟩
  · rfl
  · simp

theorem PrintEnd.mem (h : PrintEnd cs) : '\x7d' ∈ cs :=
  List.mem_of_getLast? h.getLast?_eq

theorem PrintEnd.ne_nil (h : PrintEnd cs) : cs ≠ [] :=
  List.ne_nil_of_mem h.mem

theorem PrintEnd.drop {n : Nat} (h : PrintEnd cs) (hn : n < cs.length) : PrintEnd (cs.drop n) :=
  h.suffix (List.drop_suffix n cs) (by simpa using hn)

namespace Pattern

/-- A pattern that accepts the same in front of the end of a print tag, whatever stands behind. -/
def Local (pattern : Pattern) : Prop :=
  ∀ cs, PrintEnd cs → ∀ behind, pattern (cs ++ behind) = pattern cs

structure Steady (pattern : Pattern) : Prop where
  isLocal : Local pattern
  lt {cs : List Char} (h : PrintEnd cs) : ∀ n ∈ pattern cs, n < cs.length

variable {first second : Pattern}

theorem Local.length? {pattern : Pattern} (h : Local pattern) (hend : PrintEnd cs)
    (behind : List Char) : pattern.length? (cs ++ behind) = pattern.length? cs := by
  rw [Pattern.length?, Pattern.length?, h cs hend]

theorem Steady.andThen_local (hf : Steady first) (hs : Local second) :
    Local (andThen first second) := by
  intro cs hend behind
  unfold andThen
  rw [hf.isLocal cs hend]
  apply List.flatMap_congr
  intro n hn
  have hlt := hf.lt hend n hn
  rw [List.drop_append_of_le_length hlt.le, hs _ (hend.drop hlt)]

theorem Steady.andThen (hf : Steady first) (hs : Steady second) :
    Steady (andThen first second) where
  isLocal := hf.andThen_local hs.isLocal
  lt := by
    intro cs hend n hn
    obtain ⟨m, hm, k, hk, rfl⟩ := mem_andThen.1 hn
    have h1 := hf.lt hend m hm
    have h2 := hs.lt (hend.drop h1) k hk
    rw [List.length_drop] at h2
    omega

theorem Steady.orElse (hf : Steady first) (hs : Steady second) : Steady (orElse first second) where
  isLocal := by
    intro cs hend behind
    rw [Pattern.orElse, Pattern.orElse, hf.isLocal cs hend, hs.isLocal cs hend]
  lt := by
    intro cs hend n hn
    rcases List.mem_append.1 hn with hn | hn
    · exact hf.lt hend n hn
    · exact hs.lt hend n hn

theorem literal_append {text : List Char} (h : text <+: cs ++ behind → text <+: cs) :
    literal text (cs ++ behind) = literal text cs := by
  rw [literal, literal, isPrefixOf_append h]

theorem literal_local {text : List Char}
    (h : ∀ front ∈ text.inits, front ≠ text → ¬ PrintEnd front) : Local (literal text) := by
  intro cs hend behind
  refine literal_append fun htext => ?_
  rcases Nat.le_total text.length cs.length with hle | hle
  · exact List.prefix_of_prefix_length_le htext (List.prefix_append _ _) hle
  · have hcs := List.prefix_of_prefix_length_le (List.prefix_append cs behind) htext hle
    by_cases heq : cs = text
    · rw [heq]
    · exact absurd hend (h cs ((List.mem_inits _ _).2 hcs) heq)

theorem literal_steady {text : List Char} (h : ∀ front ∈ text.inits, ¬ PrintEnd front) :
    Steady (literal text) where
  isLocal := literal_local fun front hfront _ => h front hfront
  lt := by
    intro cs hend n hn
    have htext := mem_literal hn
    have hle := bounded_literal text cs n hn
    refine Nat.lt_of_le_of_ne hle ?_
    rintro rfl
    rw [List.take_length] at htext
    exact h cs ((List.mem_inits _ _).2 (htext ▸ List.prefix_refl _)) hend

theorem run_steady {p : Char → Bool} (hp : p '\x7d' = false) : Steady (run p) where
  isLocal := by
    intro cs hend behind
    rw [run, run, takeWhile_append_of_mem hend.mem hp]
  lt := by
    intro cs hend n hn
    exact (mem_run.1 hn).trans_lt (lt_length_of_mem_drop (mem_drop_takeWhile hend.mem hp))

end Pattern

open Pattern

/-- A closing delimiter that does not begin like the end of a print tag. -/
theorem closing_steady {delimiter : List Char}
    (hplain : ∀ front ∈ delimiter.inits, ¬ PrintEnd front)
    (hall : ∀ front ∈ ('-' :: delimiter).inits, ¬ PrintEnd front)
    (hline : ∀ front ∈ ('~' :: delimiter).inits, ¬ PrintEnd front) (takesBreak : Bool) :
    Steady (defaultRules.closing delimiter takesBreak) := by
  unfold Rules.closing
  apply Steady.orElse
  · exact (literal_steady hall).andThen (run_steady (by decide))
  apply Steady.orElse
  · exact (literal_steady hline).andThen (run_steady (by decide))
  · cases takesBreak
    · exact literal_steady hplain
    · exact (literal_steady hplain).andThen
        ((literal_steady (by decide)).orElse (literal_steady (by decide)))

theorem commentClose_steady : Steady defaultRules.commentClose :=
  closing_steady (by decide) (by decide) (by decide) true

theorem blockClose_steady : Steady defaultRules.blockClose :=
  (run_steady (by decide)).andThen (closing_steady (by decide) (by decide) (by decide) true)

theorem wordTag_steady {word : String} (hword : ∀ front ∈ word.toList.inits, ¬ PrintEnd front) :
    Steady (defaultRules.wordTag word) :=
  (run_steady (by decide)).andThen <| (literal_steady hword).andThen <|
    (run_steady (by decide)).andThen (closing_steady (by decide) (by decide) (by decide) false)

section

variable {stop : Char} (hstop : stop ∈ stopChars)
include hstop

theorem interpolationStart_append (hc : stop ∈ cs) (behind : List Char) :
    defaultRules.interpolationStart (cs ++ behind) = defaultRules.interpolationStart cs := by
  have hall : ∀ c ∈ stopChars, c ∉ ['#', '\x7b'] := forall_mem_of_all (by decide)
  have hopening := hall stop hstop
  have hsame : literal ['#', '\x7b'] (cs ++ behind) = literal ['#', '\x7b'] cs :=
    literal_append (prefix_append_iff_of_mem hc hopening).1
  show andThen (literal ['#', '\x7b']) (Pattern.run Text.isBlank) (cs ++ behind) =
    andThen (literal ['#', '\x7b']) (Pattern.run Text.isBlank) cs
  rw [andThen, andThen, hsame]
  apply List.flatMap_congr
  intro n hn
  have hrest : stop ∈ cs.drop n :=
    mem_drop_of_not_mem_take hc fun hmem => hopening (mem_literal hn ▸ hmem)
  rw [drop_append_of_mem hrest, Pattern.run, Pattern.run,
    takeWhile_append_of_mem hrest (refused_of_stop hstop (by decide))]

theorem interpolationEnd_append (hc : stop ∈ cs) (behind : List Char) :
    defaultRules.interpolationEnd (cs ++ behind) = defaultRules.interpolationEnd cs := by
  have hblank : Text.isBlank stop = false := refused_of_stop hstop (by decide)
  show andThen (Pattern.run Text.isBlank) (literal ['\x7d']) (cs ++ behind) =
    andThen (Pattern.run Text.isBlank) (literal ['\x7d']) cs
  rw [andThen, andThen, Pattern.run, Pattern.run, takeWhile_append_of_mem hc hblank]
  apply List.flatMap_congr
  intro n hn
  have hlt : n < cs.length :=
    (mem_run.1 hn).trans_lt (lt_length_of_mem_drop (mem_drop_takeWhile hc hblank))
  obtain ⟨c, more, hmore⟩ : ∃ c more, cs.drop n = c :: more :=
    List.exists_cons_of_ne_nil (by simpa using hlt)
  rw [List.drop_append_of_le_length hlt.le, hmore, List.cons_append, literal, literal,
    List.isPrefixOf_cons_cons, List.isPrefixOf_cons_cons]
  rfl

end

theorem printClosing_append (h : PrintEnd cs) (hne : cs ≠ ['\x7d']) (behind : List Char) :
    defaultRules.closing defaultRules.print.closing false (cs ++ behind) =
      defaultRules.closing defaultRules.print.closing false cs := by
  have hlength : 2 ≤ cs.length := (h.resolve_left hne).1.length_le
  have hplain : literal ['\x7d', '\x7d'] (cs ++ behind) = literal ['\x7d', '\x7d'] cs :=
    literal_append fun h => List.prefix_of_prefix_length_le h (List.prefix_append _ _) hlength
  have hall : Steady (andThen (literal ['-', '\x7d', '\x7d']) (Pattern.run Text.isBlank)) :=
    (literal_steady (by decide)).andThen (run_steady (by decide))
  have hline : Steady (andThen (literal ['~', '\x7d', '\x7d']) (Pattern.run isLineBlank)) :=
    (literal_steady (by decide)).andThen (run_steady (by decide))
  simp only [Rules.closing, Pattern.orElse, defaultRules, Bool.false_eq_true, if_false,
    hall.isLocal cs h, hline.isLocal cs h, hplain]

/-- The end of a print tag itself, unless only its second brace is left. -/
theorem printClose_append (h : PrintEnd cs) (hne : cs ≠ ['\x7d']) (behind : List Char) :
    defaultRules.printClose (cs ++ behind) = defaultRules.printClose cs := by
  have hblank := run_steady (p := Text.isBlank) (by decide)
  unfold Rules.printClose Pattern.andThen
  rw [hblank.isLocal cs h]
  apply List.flatMap_congr
  intro n hn
  have hlt := hblank.lt h n hn
  rw [List.drop_append_of_le_length hlt.le, printClosing_append (h.drop hlt)]
  intro hbrace
  rw [mem_run] at hn
  have htake : '\x7d' ∉ cs.take n := by
    intro hmem
    have hblanks : cs.take n <+: cs.takeWhile Text.isBlank :=
      List.prefix_of_prefix_length_le (List.take_prefix n cs) (List.takeWhile_prefix _)
        (by rw [List.length_take]; omega)
    have := List.mem_takeWhile_imp (hblanks.subset hmem)
    exact absurd this (by decide)
  obtain ⟨front, hfront⟩ := (h.resolve_left hne).1
  have hsplit : front ++ ['\x7d'] ++ ['\x7d'] = cs.take n ++ ['\x7d'] := by
    calc front ++ ['\x7d'] ++ ['\x7d']
        = cs := by rw [List.append_assoc, List.singleton_append, hfront]
      _ = cs.take n ++ cs.drop n := (List.take_append_drop n cs).symm
      _ = cs.take n ++ ['\x7d'] := by rw [hbrace]
  exact htake (List.append_cancel_right hsplit ▸ by simp)

theorem findFirst?_append_of_printEnd {α : Type} {read? : List Char → Option α}
    {found : List Char × α} (hread : ∀ cs, PrintEnd cs → read? (cs ++ behind) = read? cs)
    (hnil : read? [] = none) (hend : PrintEnd cs) (h : findFirst? read? cs = some found) :
    findFirst? read? (cs ++ behind) = some found := by
  induction cs generalizing found with
  | nil => exact absurd rfl hend.ne_nil
  | cons c cs ih =>
    unfold findFirst? at h
    rw [List.cons_append, findFirst?, ← List.cons_append, hread _ hend]
    cases hfirst : read? (c :: cs) with
    | some result => simpa [hfirst] using h
    | none =>
      simp only [hfirst] at h ⊢
      obtain ⟨rest, hrest, rfl⟩ := Option.map_eq_some_iff.1 h
      have hne : cs ≠ [] := by
        rintro rfl
        simp [findFirst?, hnil] at hrest
      rw [ih (hend.suffix (List.suffix_cons _ _) hne) hrest]
      rfl

theorem verbatimEnd?_append (hend : PrintEnd cs) (behind : List Char) :
    defaultRules.verbatimEnd? (cs ++ behind) = defaultRules.verbatimEnd? cs := by
  have hword : Steady (defaultRules.wordTag "endverbatim") := wordTag_steady (by decide)
  have hopening : ∀ trim ∈ [some Trim.all, some .line, none],
      Steady (literal (defaultRules.block.opening ++ defaultRules.markText trim)) := by
    intro trim _
    apply literal_steady
    match trim with
    | some .all => decide
    | some .line => decide
    | none => decide
  unfold Rules.verbatimEnd?
  apply findSome?_congr
  intro trim htrim
  simp only [((hopening trim htrim).andThen hword).isLocal.length? hend]

end TemplateEngine.Lexer
