import TemplateEngine.Lexer.Step
import TemplateEngine.Proofs.Tokens

/-!
What a step of a lexer can do. Main statements: a step takes characters off the text and adds no tag
starts; inside a tag it turns the open parts and brackets in one of ten ways, each of which fixes
its tokens; in text it gives text tokens and enters at most one tag.
-/

namespace TemplateEngine.Lexer

namespace Pattern

def Positive (pattern : Pattern) : Prop :=
  ∀ cs, ∀ n ∈ pattern cs, 0 < n

theorem positive_literal {text : List Char} (h : text ≠ []) : Positive (literal text) := by
  intro cs n hn
  unfold literal at hn
  split at hn
  · rw [List.mem_singleton] at hn
    subst hn
    exact List.length_pos_iff.2 h
  · simp at hn

theorem Positive.andThen_left {first : Pattern} (h : Positive first) (second : Pattern) :
    Positive (andThen first second) := by
  intro cs n hn
  obtain ⟨m, hm, k, -, rfl⟩ := mem_andThen.1 hn
  have := h cs m hm
  omega

theorem Positive.andThen_right {second : Pattern} (first : Pattern) (h : Positive second) :
    Positive (andThen first second) := by
  intro cs n hn
  obtain ⟨m, -, k, hk, rfl⟩ := mem_andThen.1 hn
  have := h _ k hk
  omega

theorem Positive.orElse {first second : Pattern} (hf : Positive first) (hs : Positive second) :
    Positive (orElse first second) := by
  intro cs n hn
  rcases List.mem_append.1 hn with hn | hn
  · exact hf cs n hn
  · exact hs cs n hn

theorem Positive.length_pos {pattern : Pattern} (h : Positive pattern) {cs : List Char} {n : Nat}
    (hn : pattern.length? cs = some n) : 0 < n :=
  h cs n (List.mem_of_head? hn)

end Pattern

open Pattern

theorem positive_closing (r : Rules) {delimiter : List Char} (h : delimiter ≠ [])
    (takesBreak : Bool) : Positive (r.closing delimiter takesBreak) := by
  have hplain := positive_literal h
  apply Positive.orElse
  · exact (positive_literal (by simp)).andThen_left _
  apply Positive.orElse
  · exact (positive_literal (by simp)).andThen_left _
  · cases takesBreak
    · exact hplain
    · exact hplain.andThen_left _

theorem positive_blockClose (r : Rules) : Positive r.blockClose :=
  (positive_closing r r.block.closing_ne_nil true).andThen_right _

theorem positive_printClose (r : Rules) : Positive r.printClose :=
  (positive_closing r r.print.closing_ne_nil false).andThen_right _

theorem positive_commentClose (r : Rules) : Positive r.commentClose :=
  positive_closing r r.comment.closing_ne_nil true

theorem positive_interpolationStart (r : Rules) : Positive r.interpolationStart :=
  (positive_literal r.interpolation.opening_ne_nil).andThen_left _

theorem positive_interpolationEnd (r : Rules) : Positive r.interpolationEnd :=
  (positive_literal r.interpolation.closing_ne_nil).andThen_right _

theorem wordsLength?_pos {words : List (List Char)} (hne : words ≠ []) (hw : ∀ w ∈ words, w ≠ [])
    {cs : List Char} {n : Nat} (h : wordsLength? words cs = some n) : 0 < n := by
  match words, hne with
  | [word], _ =>
    have hword := List.length_pos_iff.2 (hw word (by simp))
    unfold wordsLength? at h
    split at h
    · obtain rfl := Option.some.inj h
      exact hword
    · simp at h
  | word :: second :: rest, _ =>
    have hword := List.length_pos_iff.2 (hw word (by simp))
    simp only [wordsLength?] at h
    split at h
    · split at h
      · simp at h
      · obtain ⟨k, -, rfl⟩ := Option.map_eq_some_iff.1 h
        omega
    · simp at h

theorem operator?_pos {r : Rules} {previous : Option Char} {cs : List Char} {operator : Operator}
    {n : Nat} (h : r.operator? previous cs = some (operator, n)) : 0 < n := by
  obtain ⟨found, -, hf⟩ := List.exists_of_findSome?_eq_some h
  obtain ⟨k, hk, he⟩ := Option.map_eq_some_iff.1 hf
  obtain ⟨rfl, rfl⟩ := Prod.mk.inj he
  unfold Operator.length? at hk
  split at hk
  · simp at hk
  · next hwords =>
    have hpos := wordsLength?_pos found.words_ne_nil found.ne_nil_of_mem_words hwords
    split at hk
    · simp at hk
    · split at hk
      · simp at hk
      · obtain rfl := Option.some.inj hk
        exact hpos

def isOpener (c : Char) : Bool :=
  c == '(' || c == '[' || c == '\x7b'

/-- What a step inside a tag does to the open parts and brackets, with the tokens that it gives.
`opening` is the opening delimiter of interpolations. -/
inductive Turn (opening : List Char) :
    List Nesting → List Bracket → List Token → List Nesting → List Bracket → Prop
  | plain {part : Nesting} {outer : List Nesting} {brackets : List Bracket} {t : Token}
      (ht : t.IsPlain) : Turn opening (part :: outer) brackets [t] (part :: outer) brackets
  | openBracket {part : Nesting} {outer : List Nesting} {brackets : List Bracket} {b : Bracket}
      {t : Token} {c : Char} (hpart : part ≠ .string) (hc : isOpener c = true)
      (hb : b.opener = [c]) (hkind : t.kind = .punctuation) (hvalue : t.value = String.ofList [c]) :
      Turn opening (part :: outer) brackets [t] (part :: outer) (b :: brackets)
  | closeBracket {part : Nesting} {outer : List Nesting} {brackets : List Bracket} {b : Bracket}
      {t : Token} {c closer : Char} (hc : bracketOf? closer = some c) (hb : b.opener = [c])
      (hkind : t.kind = .punctuation) (hvalue : t.value = String.ofList [closer]) :
      Turn opening (part :: outer) (b :: brackets) [t] (part :: outer) brackets
  | openString {part : Nesting} {outer : List Nesting} {brackets : List Bracket} {b : Bracket}
      (hpart : part ≠ .string) (hb : b.opener = ['"']) :
      Turn opening (part :: outer) brackets [] (.string :: part :: outer) (b :: brackets)
  | closeString {outer : List Nesting} {brackets : List Bracket} {b : Bracket}
      (hb : b.opener = ['"']) : Turn opening (.string :: outer) (b :: brackets) [] outer brackets
  | leaveString {outer : List Nesting} : Turn opening (.string :: outer) [] [] outer []
  | openInterpolation {outer : List Nesting} {brackets : List Bracket} {b : Bracket} {t : Token}
      (hb : b.opener = opening) (ht : t.kind = .interpolationStart) :
      Turn opening (.string :: outer) brackets [t] (.interpolation :: .string :: outer)
        (b :: brackets)
  | closeInterpolation {outer : List Nesting} {brackets : List Bracket} {b : Bracket} {t : Token}
      (hb : b.opener = opening) (ht : t.kind = .interpolationEnd) :
      Turn opening (.interpolation :: outer) (b :: brackets) [t] outer brackets
  | closeBlock {outer : List Nesting} {t : Token} (ht : t.kind = .blockEnd) :
      Turn opening (.block :: outer) [] [t] outer []
  | closePrint {outer : List Nesting} {t : Token} (ht : t.kind = .varEnd) :
      Turn opening (.print :: outer) [] [t] outer []

structure Turned (r : Rules) (s : State) (tokens : List Token) (t : State) : Prop where
  turn : Turn r.interpolation.opening s.nesting s.brackets tokens t.nesting t.brackets
  passes : ∃ n, 0 < n ∧ t = { s.advance n with nesting := t.nesting, brackets := t.brackets }

structure Worded (r : Rules) (s : State) (tokens : List Token) (t : State) : Prop
    extends Turned r s tokens t where
  stays : t.nesting = s.nesting ∨ t.nesting = .string :: s.nesting

theorem State.advance_advance (n m : Nat) (s : State) :
    (s.advance n).advance m = s.advance (n + m) := by
  simp only [State.advance, List.take_add, List.drop_drop, List.length_append, List.count_append,
    List.getLast?_append, Nat.add_assoc, Option.or_assoc]

/-- A turn behind some characters that are passed over. -/
theorem Worded.ofAdvance {r : Rules} {s t : State} {tokens : List Token} {n : Nat}
    (h : Worded r (s.advance n) tokens t) : Worded r s tokens t := by
  obtain ⟨m, hm, ht⟩ := h.passes
  refine ⟨⟨h.turn, n + m, by omega, ?_⟩, h.stays⟩
  rw [← State.advance_advance]
  exact ht

section

variable {r : Rules} {s t : State} {tokens : List Token} {part : Nesting} {outer : List Nesting}

/-- Reading a plain token of at least one character. -/
theorem worded_plain (hnest : s.nesting = part :: outer) {n : Nat} (hn : 0 < n) {t : Token}
    (ht : t.IsPlain) : Worded r s [t] (s.advance n) where
  turn := by
    rw [State.nesting_advance, State.brackets_advance, hnest]
    exact .plain ht
  passes := ⟨n, hn, rfl⟩
  stays := .inl rfl

theorem isPlain_of_kind {s : State} {kind : TokenKind} {value : List Char}
    (h : kind ∈ [TokenKind.name, .number, .string, .operator]) : (s.token kind value).IsPlain :=
  .inl h

theorem not_mem_bracketTexts {c : Char} (hopener : isOpener c = false)
    (hcloser : bracketOf? c = none) : String.ofList [c] ∉ bracketTexts := by
  intro hmem
  obtain ⟨cs, hcs, hc⟩ : ∃ cs ∈ [['('], [')'], ['['], [']'], ['\x7b'], ['\x7d']], [c] = cs := by
    refine ⟨[c], ?_, rfl⟩
    have := List.mem_map_of_mem (f := String.toList) hmem
    simpa [bracketTexts] using this
  simp only [List.mem_cons, List.not_mem_nil, or_false] at hcs
  rcases hcs with rfl | rfl | rfl | rfl | rfl | rfl <;>
  · obtain rfl := List.head_eq_of_cons_eq hc
    simp [isOpener, bracketOf?] at hopener hcloser

theorem punctuationStep_worded {c : Char} (hnest : s.nesting = part :: outer)
    (hpart : part ≠ .string) (h : punctuationStep c s = .ok (tokens, t)) :
    Worded r s tokens t := by
  unfold punctuationStep at h
  simp only at h
  split at h
  · next opener hcloser =>
    split at h
    · simp at h
    · next innermost outer' hbrackets =>
      split at h
      · next hinnermost =>
        obtain ⟨rfl, rfl⟩ := Prod.mk.inj (Except.ok.inj h)
        refine ⟨⟨?_, 1, Nat.one_pos, rfl⟩, .inl rfl⟩
        rw [hnest, hbrackets, State.nesting_advance, State.brackets_advance]
        exact .closeBracket hcloser (by simpa using hinnermost) rfl rfl
      · simp at h
  · next hcloser =>
    split at h
    · next hopener =>
      obtain ⟨rfl, rfl⟩ := Prod.mk.inj (Except.ok.inj h)
      refine ⟨⟨?_, 1, Nat.one_pos, rfl⟩, .inl rfl⟩
      rw [State.nesting_advance, State.brackets_advance, State.openBracket, hnest]
      exact .openBracket hpart hopener rfl rfl rfl
    · next hopener =>
      obtain ⟨rfl, rfl⟩ := Prod.mk.inj (Except.ok.inj h)
      exact worded_plain hnest Nat.one_pos
        (.inr ⟨rfl, not_mem_bracketTexts (by simpa [isOpener] using hopener) hcloser⟩)

theorem wordStep_worded {c : Char} (hnest : s.nesting = part :: outer) (hpart : part ≠ .string)
    (h : wordStep r c s = .ok (tokens, t)) : Worded r s tokens t := by
  unfold wordStep at h
  split at h
  · next operator n hop =>
    obtain ⟨rfl, rfl⟩ := Prod.mk.inj (Except.ok.inj h)
    exact worded_plain hnest (operator?_pos hop) (isPlain_of_kind (by decide))
  simp only at h
  split at h
  · next hname =>
    obtain ⟨rfl, rfl⟩ := Prod.mk.inj (Except.ok.inj h)
    exact worded_plain hnest (by omega) (isPlain_of_kind (by decide))
  split at h
  · next hnumber =>
    obtain ⟨rfl, rfl⟩ := Prod.mk.inj (Except.ok.inj h)
    exact worded_plain hnest (by omega) (isPlain_of_kind (by decide))
  split at h
  · exact punctuationStep_worded hnest hpart h
  split at h
  · obtain ⟨rfl, rfl⟩ := Prod.mk.inj (Except.ok.inj h)
    exact worded_plain hnest (by omega) (isPlain_of_kind (by decide))
  split at h
  · obtain ⟨rfl, rfl⟩ := Prod.mk.inj (Except.ok.inj h)
    refine ⟨⟨?_, 1, Nat.one_pos, rfl⟩, .inr rfl⟩
    simp only [State.nesting_advance, State.brackets_advance, State.enter, State.openBracket, hnest]
    exact .openString hpart rfl
  · simp at h

theorem expressionStep_worded (hnest : s.nesting = part :: outer) (hpart : part ≠ .string)
    (hs : s.rest ≠ []) (h : expressionStep r s = .ok (tokens, t)) : Worded r s tokens t := by
  unfold expressionStep at h
  simp only at h
  split at h
  · next hrest =>
    split at h
    · next hblank =>
      rw [hblank] at hrest
      exact absurd (by simpa using hrest) hs
    · simp at h
  · exact (wordStep_worded (s := s.advance _) hnest hpart h).ofAdvance

theorem closeOrExpression_turned {close : Pattern} {kind : TokenKind} {closing : List Char}
    (hnest : s.nesting = part :: outer) (hpart : part ≠ .string) (hs : s.rest ≠ [])
    (hclose : Positive close)
    (hkind : ∀ t : Token, t.kind = kind →
      Turn r.interpolation.opening (part :: outer) [] [t] outer [])
    (h : closeOrExpression r close kind closing s = .ok (tokens, t)) : Turned r s tokens t := by
  unfold closeOrExpression at h
  split at h
  · next n hn =>
    obtain ⟨rfl, rfl⟩ := Prod.mk.inj (Except.ok.inj h)
    obtain ⟨hbrackets, hlength⟩ : s.brackets = [] ∧ close.length? s.rest = some n := by
      split at hn
      · next hempty => exact ⟨List.isEmpty_iff.1 hempty, hn⟩
      · simp at hn
    refine ⟨?_, n, hclose.length_pos hlength, rfl⟩
    simp only [State.leave, State.nesting_advance, State.brackets_advance, hnest, hbrackets,
      List.tail_cons]
    exact hkind _ rfl
  · exact (expressionStep_worded hnest hpart hs h).toTurned

theorem interpolationStep_turned (hnest : s.nesting = .interpolation :: outer) (hs : s.rest ≠ [])
    (h : interpolationStep r s = .ok (tokens, t)) : Turned r s tokens t := by
  unfold interpolationStep at h
  split at h
  · exact (expressionStep_worded hnest (by simp) hs h).toTurned
  · next innermost outer' hbrackets =>
    split at h
    · next n hn =>
      obtain ⟨rfl, rfl⟩ := Prod.mk.inj (Except.ok.inj h)
      obtain ⟨hinnermost, hlength⟩ : innermost.opener = r.interpolation.opening ∧
          r.interpolationEnd.length? s.rest = some n := by
        split at hn
        · next hopener => exact ⟨by simpa using hopener, hn⟩
        · simp at hn
      refine ⟨?_, n, (positive_interpolationEnd r).length_pos hlength, rfl⟩
      simp only [State.leave, State.nesting_advance, State.brackets_advance, hnest, hbrackets,
        List.tail_cons]
      exact .closeInterpolation hinnermost rfl
    · exact (expressionStep_worded hnest (by simp) hs h).toTurned

theorem stringStep_turned (hnest : s.nesting = .string :: outer)
    (h : stringStep r s = .ok (tokens, t)) : Turned r s tokens t := by
  unfold stringStep at h
  split at h
  · next n hn =>
    obtain ⟨rfl, rfl⟩ := Prod.mk.inj (Except.ok.inj h)
    refine ⟨?_, n, (positive_interpolationStart r).length_pos hn, rfl⟩
    simp only [State.enter, State.nesting_advance, State.brackets_advance, State.openBracket, hnest]
    exact .openInterpolation rfl rfl
  simp only at h
  split at h
  · next hplain =>
    obtain ⟨rfl, rfl⟩ := Prod.mk.inj (Except.ok.inj h)
    exact (worded_plain hnest (by omega) (isPlain_of_kind (by decide))).toTurned
  split at h
  · split at h
    · next hbrackets =>
      obtain ⟨rfl, rfl⟩ := Prod.mk.inj (Except.ok.inj h)
      refine ⟨?_, 1, Nat.one_pos, rfl⟩
      simp only [State.leave, State.nesting_advance, State.brackets_advance, hnest, hbrackets,
        List.tail_cons]
      exact .leaveString
    · next innermost outer' hbrackets =>
      split at h
      · next hinnermost =>
        obtain ⟨rfl, rfl⟩ := Prod.mk.inj (Except.ok.inj h)
        refine ⟨?_, 1, Nat.one_pos, rfl⟩
        simp only [State.leave, State.nesting_advance, State.brackets_advance, hnest, hbrackets,
          List.tail_cons]
        exact .closeString (by simpa using hinnermost)
      · simp at h
  · simp at h
  · simp at h

/-- Every step inside a tag is one of the turns. -/
theorem partStep_turned (hs : s.rest ≠ []) (h : partStep r s = .ok (tokens, t)) :
    Turned r s tokens t := by
  unfold partStep at h
  split at h
  · simp at h
  · next outer hnest =>
    exact closeOrExpression_turned hnest (by simp) hs (positive_blockClose r)
      (fun t ht => .closeBlock ht) (mapError_eq_ok.1 h)
  · next outer hnest =>
    exact closeOrExpression_turned hnest (by simp) hs (positive_printClose r)
      (fun t ht => .closePrint ht) (mapError_eq_ok.1 h)
  · next outer hnest => exact stringStep_turned hnest (mapError_eq_ok.1 h)
  · next outer hnest => exact interpolationStep_turned hnest hs (mapError_eq_ok.1 h)
  · simp at h

end

section

variable {r : Rules} {s : State} {c : Char} {cs : List Char}
  (hstart : r.interpolationStart.length? s.rest = none)
include hstart

theorem stringStep_plain (hplain : plainLength r.interpolation.opening s.rest ≠ 0) :
    stringStep r s =
      .ok ([s.token .string (unescape (s.rest.take (plainLength r.interpolation.opening s.rest)))],
        s.advance (plainLength r.interpolation.opening s.rest)) := by
  unfold stringStep
  rw [hstart]
  simp only
  rw [if_pos hplain]

theorem stringStep_quote (hrest : s.rest = '"' :: cs) :
    stringStep r s =
      match s.brackets with
      | [] => .ok ([], s.leave.advance 1)
      | innermost :: outer =>
        if innermost.opener == ['"'] then .ok ([], ({ s with brackets := outer }.leave).advance 1)
        else .error (.unclosed (String.ofList innermost.opener), innermost.line) := by
  have hplain : plainLength r.interpolation.opening s.rest = 0 := by
    rw [hrest]
    cases cs <;> simp [plainLength]
  unfold stringStep
  rw [hstart]
  simp only
  rw [if_neg (not_not_intro hplain)]
  split
  · rfl
  · next hne heq => exact (hne (List.cons.inj (heq.symm.trans hrest)).1).elim
  · next heq => simp [hrest] at heq

theorem stringStep_other (hrest : s.rest = c :: cs) (hc : c ≠ '"')
    (hplain : plainLength r.interpolation.opening s.rest = 0) :
    stringStep r s = .error (.unexpectedCharacter c, s.line) := by
  unfold stringStep
  rw [hstart]
  simp only
  rw [if_neg (not_not_intro hplain)]
  split
  · next heq => exact absurd (List.cons.inj (hrest.symm.trans heq)).1 hc
  · next heq => rw [(List.cons.inj (hrest.symm.trans heq)).1]
  · next heq => simp [hrest] at heq

end

inductive Move : List Nesting → List Token → List Nesting → Prop
  | word {part : Nesting} {outer : List Nesting} {t : Token} (h : t.kind.isInner = true) :
      Move (part :: outer) [t] (part :: outer)
  | openString {part : Nesting} {outer : List Nesting} :
      Move (part :: outer) [] (.string :: part :: outer)
  | closeString {outer : List Nesting} : Move (.string :: outer) [] outer
  | openInterpolation {outer : List Nesting} {t : Token} (h : t.kind.isInner = true) :
      Move (.string :: outer) [t] (.interpolation :: .string :: outer)
  | closeInterpolation {outer : List Nesting} {t : Token} (h : t.kind.isInner = true) :
      Move (.interpolation :: outer) [t] outer
  | closeBlock {outer : List Nesting} {t : Token} (h : t.kind = .blockEnd) :
      Move (.block :: outer) [t] outer
  | closePrint {outer : List Nesting} {t : Token} (h : t.kind = .varEnd) :
      Move (.print :: outer) [t] outer

/-- A turn is a move, whatever it does to the brackets. -/
theorem Turn.move {opening : List Char} {before after : List Nesting} {open' closed : List Bracket}
    {tokens : List Token} (h : Turn opening before open' tokens after closed) :
    Move before tokens after := by
  cases h with
  | plain ht => exact .word ht.isInner
  | openBracket _ _ _ hkind => exact .word (by rw [hkind]; rfl)
  | closeBracket _ _ hkind => exact .word (by rw [hkind]; rfl)
  | openString => exact .openString
  | closeString => exact .closeString
  | leaveString => exact .closeString
  | openInterpolation _ ht => exact .openInterpolation (by rw [ht]; rfl)
  | closeInterpolation _ ht => exact .closeInterpolation (by rw [ht]; rfl)
  | closeBlock ht => exact .closeBlock ht
  | closePrint ht => exact .closePrint ht

structure Moved (s : State) (tokens : List Token) (t : State) : Prop where
  move : Move s.nesting tokens t.nesting
  shorter : t.rest.length < s.rest.length
  tags : t.tags = s.tags

theorem length_rest_advance_lt {s : State} (hs : s.rest ≠ []) {n : Nat} (hn : 0 < n) :
    (s.advance n).rest.length < s.rest.length := by
  have := List.length_pos_iff.2 hs
  simp only [State.rest_advance, List.length_drop]
  omega

/-- Every step inside a tag is one of the moves. -/
theorem partStep_moved {r : Rules} {s t : State} {tokens : List Token} (hs : s.rest ≠ [])
    (h : partStep r s = .ok (tokens, t)) : Moved s tokens t := by
  have hturned := partStep_turned hs h
  obtain ⟨n, hn, ht⟩ := hturned.passes
  refine ⟨hturned.turn.move, ?_, ?_⟩
  · rw [ht]
    exact length_rest_advance_lt hs hn
  · rw [ht]
    rfl

/-- Whether the open parts are those of a tag: strings and interpolations inside a block or print
tag. -/
def InTag : List Nesting → Prop
  | [.block] | [.print] => True
  | .string :: outer | .interpolation :: outer => InTag outer
  | _ => False

/-- A move inside a tag stays there or ends it. -/
theorem Move.inTag {before after : List Nesting} {tokens : List Token}
    (h : Move before tokens after) (hb : InTag before) : after = [] ∨ InTag after := by
  cases h with
  | word => exact .inr hb
  | openString => exact .inr hb
  | closeString => exact .inr hb
  | openInterpolation => exact .inr hb
  | closeInterpolation => exact .inr hb
  | closeBlock =>
    cases after with
    | nil => exact .inl rfl
    | cons => exact hb.elim
  | closePrint =>
    cases after with
    | nil => exact .inl rfl
    | cons => exact hb.elim

def TagsFit (s : State) : Prop :=
  ∀ start ∈ s.tags, 0 < start.length

theorem tagStart?_length_pos {r : Rules} {offset : Nat} {cs : List Char} {start : TagStart}
    (h : r.tagStart? offset cs = some start) : 0 < start.length := by
  obtain ⟨opening, hfound, rfl⟩ := Option.map_eq_some_iff.1 h
  have hmem := List.mem_of_find?_eq_some hfound
  have hne : opening ≠ [] := by
    simp only [List.mem_cons, List.not_mem_nil, or_false] at hmem
    rcases hmem with rfl | rfl | rfl
    · exact r.print.opening_ne_nil
    · exact r.block.opening_ne_nil
    · exact r.comment.opening_ne_nil
  have := List.length_pos_iff.2 hne
  simp only
  omega

theorem tagStartsFrom_length_pos {r : Rules} {skip offset : Nat} {cs : List Char} :
    ∀ start ∈ r.tagStartsFrom skip offset cs, 0 < start.length := by
  induction cs generalizing skip offset with
  | nil => simp [Rules.tagStartsFrom]
  | cons c cs ih =>
    cases skip with
    | succ skip => exact ih
    | zero =>
      intro start hstart
      rw [Rules.tagStartsFrom] at hstart
      split at hstart
      · next first hfirst =>
        rcases List.mem_cons.1 hstart with rfl | hstart
        · exact tagStart?_length_pos hfirst
        · exact ih start hstart
      · exact ih start hstart

theorem tagsFit_start (r : Rules) (code : List Char) : TagsFit (.start r code) :=
  tagStartsFrom_length_pos

structure Passed (s t : State) : Prop where
  shorter : t.rest.length < s.rest.length
  tags : ∀ start ∈ t.tags, start ∈ s.tags

theorem Passed.fits {s t : State} (h : Passed s t) (hs : TagsFit s) : TagsFit t :=
  fun start hstart => hs start (h.tags start hstart)

theorem Moved.passed {s t : State} {tokens : List Token} (h : Moved s tokens t) : Passed s t where
  shorter := h.shorter
  tags := by
    rw [h.tags]
    exact fun _ hstart => hstart

inductive TextPiece (tokens : List Token) (nesting : List Nesting) : Prop
  | texts (htokens : ∀ t ∈ tokens, t.kind = .text) (hnest : nesting = [])
  | enters (texts : List Token) {start : Token} (htokens : tokens = texts ++ [start])
      (htexts : ∀ t ∈ texts, t.kind = .text)
      (hstart : start.kind = .blockStart ∧ nesting = [.block] ∨
        start.kind = .varStart ∧ nesting = [.print])

theorem kind_of_mem_textTokens {s : State} {text : List Char} :
    ∀ t ∈ s.textTokens text, t.kind = .text := by
  intro t ht
  unfold State.textTokens at ht
  split at ht
  · simp at ht
  · rw [List.mem_singleton.1 ht]
    rfl

theorem TextPiece.after {texts tokens : List Token} {nesting : List Nesting}
    (h : TextPiece tokens nesting) (htexts : ∀ t ∈ texts, t.kind = .text) :
    TextPiece (texts ++ tokens) nesting := by
  cases h with
  | texts htokens hnest =>
    refine .texts (fun t ht => ?_) hnest
    rcases List.mem_append.1 ht with ht | ht
    · exact htexts t ht
    · exact htokens t ht
  | enters more htokens hmore hstart =>
    refine .enters (texts ++ more) (by simp [htokens]) (fun t ht => ?_) hstart
    rcases List.mem_append.1 ht with ht | ht
    · exact htexts t ht
    · exact hmore t ht

theorem verbatimStep_ok {r : Rules} {s t : State} {tokens : List Token}
    (h : verbatimStep r s = .ok (tokens, t)) :
    (∀ x ∈ tokens, x.kind = .text) ∧ ∃ n, t = s.advance n := by
  unfold verbatimStep at h
  split at h
  · simp at h
  · next body trim n _ =>
    obtain ⟨rfl, rfl⟩ := Prod.mk.inj (Except.ok.inj h)
    exact ⟨kind_of_mem_textTokens, _, rfl⟩

/-- What stands behind an opening delimiter is read from the state there, without going back. -/
theorem tagStep_lexed {r : Rules} {search : EndSearch} {kind : TagKind} {s t : State}
    {tokens : List Token} (hnest : s.nesting = [])
    (h : tagStep r search kind s = .ok (.lexed (tokens, t))) :
    TextPiece tokens t.nesting ∧ t.rest.length ≤ s.rest.length ∧ t.tags = s.tags := by
  unfold tagStep at h
  split at h
  · split at h
    · simp at h
    · obtain ⟨rfl, rfl⟩ := Prod.mk.inj (DataPiece.lexed.inj (Except.ok.inj h))
      exact ⟨.texts (by simp) hnest, by simp, rfl⟩
  · obtain ⟨rfl, rfl⟩ := Prod.mk.inj (DataPiece.lexed.inj (Except.ok.inj h))
    refine ⟨.enters [] rfl (by simp) (.inr ⟨rfl, ?_⟩), Nat.le_refl _, rfl⟩
    simp [State.enter, hnest]
  · split at h
    · next n _ =>
      obtain ⟨piece, hpiece, he⟩ := map_eq_ok.1 h
      obtain rfl := DataPiece.lexed.inj he
      obtain ⟨htokens, m, rfl⟩ := verbatimStep_ok hpiece
      exact ⟨.texts htokens hnest, by simp, rfl⟩
    · obtain ⟨rfl, rfl⟩ := Prod.mk.inj (DataPiece.lexed.inj (Except.ok.inj h))
      refine ⟨.enters [] rfl (by simp) (.inl ⟨rfl, ?_⟩), Nat.le_refl _, rfl⟩
      simp [State.enter, hnest]

theorem tagStep_openComment {r : Rules} {search : EndSearch} {kind : TagKind} {s : State}
    {piece : Piece} (h : tagStep r search kind s = .ok (.openComment piece)) : piece = ([], s) := by
  unfold tagStep at h
  split at h
  · split at h
    · exact (DataPiece.openComment.inj (Except.ok.inj h)).symm
    · simp at h
  · simp at h
  · split at h
    · obtain ⟨_, -, he⟩ := map_eq_ok.1 h
      simp at he
    · simp at h

/-- The state behind a tag start has moved on. -/
theorem passed_tagStart {s t : State} {start : TagStart} {later : List TagStart} (hs : s.rest ≠ [])
    (hfit : TagsFit s) (htags : s.tags.dropWhile (·.offset < s.offset) = start :: later)
    (hrest : t.rest.length ≤ (s.advance (start.offset - s.offset + start.length)).rest.length)
    (ht : t.tags = later) : Passed s t := by
  have hmem : ∀ x ∈ start :: later, x ∈ s.tags := fun x hx =>
    (List.dropWhile_sublist _).subset (htags ▸ hx)
  have hpos := hfit start (hmem start (by simp))
  constructor
  · exact Nat.lt_of_le_of_lt hrest (length_rest_advance_lt hs (by omega))
  · intro x hx
    exact hmem x (List.mem_cons_of_mem _ (ht ▸ hx))

/-- A piece of text that ends behind it or inside a tag. -/
theorem dataStep_lexed {r : Rules} {search : EndSearch} {s t : State} {tokens : List Token}
    (hnest : s.nesting = []) (hs : s.rest ≠ []) (hfit : TagsFit s)
    (h : dataStep r search s = .ok (.lexed (tokens, t))) :
    TextPiece tokens t.nesting ∧ Passed s t := by
  unfold dataStep at h
  split at h
  · obtain ⟨rfl, rfl⟩ := Prod.mk.inj (DataPiece.lexed.inj (Except.ok.inj h))
    refine ⟨.texts kind_of_mem_textTokens hnest, ?_, fun _ hstart => hstart⟩
    exact length_rest_advance_lt hs (List.length_pos_iff.2 hs)
  · next start later htags =>
    obtain ⟨piece, hpiece, he⟩ := map_eq_ok.1 h
    cases piece with
    | openComment piece => simp [DataPiece.after] at he
    | lexed piece =>
      obtain ⟨more, u⟩ := piece
      obtain ⟨rfl, rfl⟩ := Prod.mk.inj (DataPiece.lexed.inj he)
      obtain ⟨hmore, hrest, ht⟩ := tagStep_lexed (by exact hnest) hpiece
      exact ⟨hmore.after kind_of_mem_textTokens, passed_tagStart hs hfit htags hrest ht⟩

/-- A piece of text that ends behind the opening delimiter of a comment. -/
theorem dataStep_openComment {r : Rules} {search : EndSearch} {s t : State} {tokens : List Token}
    (hnest : s.nesting = []) (hs : s.rest ≠ []) (hfit : TagsFit s)
    (h : dataStep r search s = .ok (.openComment (tokens, t))) :
    (∀ x ∈ tokens, x.kind = .text) ∧ t.nesting = [] ∧ Passed s t := by
  unfold dataStep at h
  split at h
  · simp at h
  · next start later htags =>
    obtain ⟨piece, hpiece, he⟩ := map_eq_ok.1 h
    cases piece with
    | lexed piece => simp [DataPiece.after] at he
    | openComment piece =>
      obtain rfl := tagStep_openComment hpiece
      obtain ⟨rfl, rfl⟩ := Prod.mk.inj (DataPiece.openComment.inj he)
      refine ⟨?_, hnest, passed_tagStart hs hfit htags (Nat.le_refl _) rfl⟩
      simpa using kind_of_mem_textTokens

end TemplateEngine.Lexer
