import TemplateEngine.Proofs.Lexer.Operators
import TemplateEngine.Proofs.Lexer.Reaches

/-!
The tag starts ahead of a lexer. Main statement: under the default rules, wherever a lexer stands in
text, the tag starts that it has not passed are those that a search from there finds, and the next
one is the first that begins in the rest of the text.
-/

namespace TemplateEngine.Lexer

section

variable {r : Rules} {comments : Comments} {s t : State} {tokens : List Token} {code : List Char}

/-- Behind characters that were read the last one of them counts, whatever stood in front. -/
theorem State.previous_advance {n : Nat} (hn : n ≠ 0) (hs : s.rest ≠ []) :
    (s.advance n).previous = (s.rest.take n).getLast? := by
  cases hlast : (s.rest.take n).getLast? with
  | none => exact absurd (List.take_eq_nil_iff.1 (List.getLast?_eq_none_iff.1 hlast)) (by simp_all)
  | some c => simp only [State.advance, hlast, Option.some_or]

def StandsIn (code : List Char) (s : State) : Prop :=
  ∃ passed, code = passed ++ s.rest ∧ s.offset = passed.length ∧
    s.previous = passed.getLast? ∧ s.line = 1 + passed.count '\n'

theorem standsIn_start (r : Rules) (code : List Char) : StandsIn code (.start r code) :=
  ⟨[], rfl, rfl, rfl, rfl⟩

theorem StandsIn.advance (h : StandsIn code s) (n : Nat) : StandsIn code (s.advance n) := by
  obtain ⟨passed, hcode, hoffset, hprevious, hline⟩ := h
  refine ⟨passed ++ s.rest.take n, ?_, ?_, ?_, ?_⟩
  · rw [hcode, List.append_assoc, State.rest_advance, List.take_append_drop]
  · simp [State.advance, hoffset]
  · simp [State.advance, hprevious]
  · simp [hline, Nat.add_assoc]

theorem StandsIn.stepped (h : StandsIn code s) (hstep : Stepped r comments s tokens t) :
    StandsIn code t := by
  cases hstep with
  | turned _ hturned =>
    obtain ⟨n, -, ht⟩ := hturned.passes
    rw [ht]
    exact h.advance n
  | text _ _ htext =>
    obtain ⟨n, ht⟩ := htext.movesOn
    simp only at ht
    rw [ht]
    exact h.advance n
  | openComment _ _ _ _ htext =>
    obtain ⟨n, ht⟩ := htext.movesOn
    simp only at ht
    rw [ht]
    exact h.advance n
  | comment => exact h.advance _

theorem standsIn_of_reaches (h : Reaches r comments (.start r code) tokens s) : StandsIn code s :=
  h.induct (P := fun _ s => StandsIn code s) (sound_start r comments code) []
    (standsIn_start r code) fun _ _ _ _ _ hstands hstep => hstands.stepped hstep

theorem dropWhile_dropWhile_offset {m n : Nat} (h : m ≤ n) (starts : List TagStart) :
    (starts.dropWhile (·.offset < m)).dropWhile (·.offset < n) =
      starts.dropWhile (·.offset < n) := by
  induction starts with
  | nil => rfl
  | cons start starts ih =>
    by_cases hm : start.offset < m
    · have hn : start.offset < n := by omega
      simp [hm, hn, ih]
    · simp [hm]

/-- The tag starts in a text that stands at `offset` stand in it. -/
theorem bounds_of_mem_tagStartsFrom {skip offset : Nat} {cs : List Char} :
    ∀ start ∈ r.tagStartsFrom skip offset cs,
      offset ≤ start.offset ∧ start.offset < offset + cs.length := by
  induction cs generalizing skip offset with
  | nil => simp [Rules.tagStartsFrom]
  | cons c cs ih =>
    have hmore : ∀ skip, ∀ start ∈ r.tagStartsFrom skip (offset + 1) cs,
        offset ≤ start.offset ∧ start.offset < offset + (c :: cs).length := by
      intro skip start hstart
      have := ih start hstart
      simp only [List.length_cons]
      omega
    cases skip with
    | succ skip => exact hmore skip
    | zero =>
      intro start hstart
      rw [Rules.tagStartsFrom] at hstart
      split at hstart
      · next first hfirst =>
        rcases List.mem_cons.1 hstart with rfl | hstart
        · obtain ⟨opening, -, rfl⟩ := Option.map_eq_some_iff.1 hfirst
          simp
        · exact hmore _ start hstart
      · exact hmore _ start hstart

structure InOrder (r : Rules) (code : List Char) (s : State) : Prop where
  stands : StandsIn code s
  tags : s.tagsAhead = (r.tagStarts code).dropWhile (·.offset < s.offset)

theorem inOrder_start (r : Rules) (code : List Char) : InOrder r code (.start r code) :=
  ⟨standsIn_start r code, rfl⟩

theorem InOrder.length_eq (h : InOrder r code s) : code.length = s.offset + s.rest.length := by
  obtain ⟨passed, hcode, hoffset, -, -⟩ := h.stands
  rw [hcode, hoffset, List.length_append]

theorem InOrder.ofTags (h : InOrder r code s) (ht : StandsIn code t) (hle : s.offset ≤ t.offset)
    (htags : t.tags = s.tags) : InOrder r code t := by
  refine ⟨ht, ?_⟩
  rw [State.tagsAhead, htags, ← dropWhile_dropWhile_offset hle s.tags, ← State.tagsAhead, h.tags,
    dropWhile_dropWhile_offset hle]

theorem InOrder.inText {piece : Piece} (h : InOrder r code s) (ht : StandsIn code piece.2)
    (htext : InText s piece) : InOrder r code piece.2 := by
  have hle := htext.movesOn.offset_le
  rcases htext.tags with htags | ⟨start, htags, hpassed⟩
  · exact h.ofTags ht hle htags
  · refine ⟨ht, ?_⟩
    have hmem : start ∈ r.tagStarts code := by
      apply (List.dropWhile_sublist (fun x : TagStart => x.offset < s.offset)).subset
      rw [← h.tags, htags]
      exact List.mem_cons_self ..
    have hbounds := bounds_of_mem_tagStartsFrom start hmem
    have hlength := tagStartsFrom_length_pos start hmem
    have hcode := h.length_eq
    have hstart : start.offset < piece.2.offset := by
      simp only [State.advance, List.length_take] at hpassed
      omega
    rw [State.tagsAhead, ← dropWhile_dropWhile_offset hle (r.tagStarts code), ← h.tags, htags]
    simp [hstart]

theorem InOrder.stepped (h : InOrder r code s) (hstep : Stepped r comments s tokens t) :
    InOrder r code t := by
  have ht := h.stands.stepped hstep
  cases hstep with
  | turned _ hturned =>
    obtain ⟨n, -, hn⟩ := hturned.passes
    rw [hn] at ht ⊢
    exact h.ofTags ht (offset_le_advance n s) rfl
  | text _ _ htext => exact h.inText ht htext
  | openComment _ _ _ _ htext => exact h.inText ht htext
  | comment => exact h.ofTags ht (offset_le_advance _ s) rfl

theorem inOrder_of_reaches (h : Reaches r comments (.start r code) tokens s) : InOrder r code s :=
  h.induct (P := fun _ s => InOrder r code s) (sound_start r comments code) []
    (inOrder_start r code) fun _ _ _ _ _ hinOrder hstep => hinOrder.stepped hstep

end

def openingChars : List Char :=
  ['\x7b', '%', '#']

theorem tagStart?_eq_none {offset : Nat} {c : Char} {cs : List Char}
    (h : c ≠ '\x7b' ∨ ∀ d ∈ cs.head?, d ∉ openingChars) :
    defaultRules.tagStart? offset (c :: cs) = none := by
  rw [Rules.tagStart?, Option.map_eq_none_iff, List.find?_eq_none]
  intro opening hopening hprefix
  obtain ⟨d, hd, rfl⟩ : ∃ d ∈ openingChars, opening = ['\x7b', d] := by
    simpa [defaultRules, openingChars] using hopening
  rw [List.isPrefixOf_iff_prefix, List.cons_prefix_cons] at hprefix
  obtain ⟨rfl, hprefix⟩ := hprefix
  rcases h with h | h
  · exact h rfl
  · obtain ⟨more, rfl⟩ := hprefix
    exact h d rfl hd

theorem tagStart?_of_three (offset : Nat) (b c d : Char) (cs : List Char) :
    defaultRules.tagStart? offset (b :: c :: d :: cs) =
      defaultRules.tagStart? offset [b, c, d] := by
  simp only [Rules.tagStart?, defaultRules, List.find?_cons, List.isPrefixOf]
  split
  · rfl
  split
  · rfl
  split <;> rfl

theorem length_le_of_tagStart? {offset : Nat} {cs : List Char} {start : TagStart}
    (h : defaultRules.tagStart? offset cs = some start) : start.length ≤ 3 := by
  obtain ⟨opening, hopening, rfl⟩ := Option.map_eq_some_iff.1 h
  obtain ⟨d, -, rfl⟩ : ∃ d ∈ openingChars, opening = ['\x7b', d] := by
    simpa [defaultRules, openingChars] using List.mem_of_find?_eq_some hopening
  simp only [Rules.trimMark?]
  split
  · simp [Rules.markText]
  split
  · simp [Rules.markText]
  split <;> simp [Rules.markText]

/-- A search over two texts finds what it finds in each, if the first one does not end inside an
opening delimiter. -/
theorem tagStartsFrom_append {xs : List Char} (hlast : ∀ c ∈ xs.getLast?, c ∉ openingChars)
    (ys : List Char) {skip : Nat} (hskip : skip ≤ xs.length) (offset : Nat) :
    defaultRules.tagStartsFrom skip offset (xs ++ ys) =
      defaultRules.tagStartsFrom skip offset xs ++
        defaultRules.tagStartsFrom 0 (offset + xs.length) ys := by
  induction xs generalizing skip offset with
  | nil =>
    obtain rfl : skip = 0 := by simpa using hskip
    simp [Rules.tagStartsFrom]
  | cons c cs ih =>
    have hmore : ∀ {skip}, skip ≤ cs.length →
        defaultRules.tagStartsFrom skip (offset + 1) (cs ++ ys) =
          defaultRules.tagStartsFrom skip (offset + 1) cs ++
            defaultRules.tagStartsFrom 0 (offset + (c :: cs).length) ys := by
      intro skip hskip
      have := ih (fun e he => hlast e (by rw [List.getLast?_cons, he]; rfl)) hskip (offset + 1)
      rwa [Nat.add_assoc, Nat.add_comm 1] at this
    cases skip with
    | succ skip => exact hmore (by simpa using hskip)
    | zero =>
      obtain hnone | ⟨hsame, hlength⟩ :
          (defaultRules.tagStart? offset (c :: cs) = none ∧
            defaultRules.tagStart? offset (c :: cs ++ ys) = none) ∨
          (defaultRules.tagStart? offset (c :: cs ++ ys) = defaultRules.tagStart? offset (c :: cs) ∧
            2 ≤ cs.length) := by
        rcases cs with _ | ⟨d, _ | ⟨e, cs⟩⟩
        · have hc : c ≠ '\x7b' := by
            rintro rfl
            exact hlast _ rfl (by decide)
          exact .inl (by constructor <;> exact tagStart?_eq_none (.inl hc))
        · have hd : d ∉ openingChars := hlast d rfl
          exact .inl (by constructor <;> exact tagStart?_eq_none (.inr (by simpa using hd)))
        · refine .inr ⟨?_, by simp⟩
          rw [List.cons_append, List.cons_append, List.cons_append, tagStart?_of_three,
            ← tagStart?_of_three offset c d e cs]
      · rw [List.cons_append, Rules.tagStartsFrom, Rules.tagStartsFrom, hnone.1,
          ← List.cons_append, hnone.2]
        exact hmore (Nat.zero_le _)
      · rw [List.cons_append, Rules.tagStartsFrom, Rules.tagStartsFrom, ← List.cons_append, hsame]
        cases hstart : defaultRules.tagStart? offset (c :: cs) with
        | none => exact hmore (Nat.zero_le _)
        | some start =>
          have := length_le_of_tagStart? hstart
          simp only
          rw [hmore (by omega), List.cons_append]

namespace Pattern

variable {P : Char → Prop} {first second : Pattern}

def Ends (P : Char → Prop) (pattern : Pattern) : Prop :=
  ∀ cs, ∀ n ∈ pattern cs, ∃ c, (cs.take n).getLast? = some c ∧ P c

/-- Every accepted beginning that is not empty ends with such a character. -/
def MayEnd (P : Char → Prop) (pattern : Pattern) : Prop :=
  ∀ cs, ∀ n ∈ pattern cs, ∀ c ∈ (cs.take n).getLast?, P c

theorem mem_literal {text cs : List Char} {n : Nat} (h : n ∈ literal text cs) :
    cs.take n = text := by
  unfold literal at h
  split at h
  · next hprefix =>
    obtain ⟨more, rfl⟩ := List.isPrefixOf_iff_prefix.1 hprefix
    rw [List.mem_singleton.1 h, List.take_left]
  · simp at h

theorem ends_literal {text : List Char} {c : Char} (hlast : text.getLast? = some c) (hc : P c) :
    Ends P (literal text) := by
  intro cs n hn
  rw [mem_literal hn]
  exact ⟨c, hlast, hc⟩

theorem mayEnd_literal {text : List Char} (h : ∀ c ∈ text.getLast?, P c) :
    MayEnd P (literal text) := by
  intro cs n hn
  rwa [mem_literal hn]

theorem mayEnd_run {p : Char → Bool} (h : ∀ c, p c = true → P c) : MayEnd P (run p) := by
  intro cs n hn c hc
  rw [mem_run] at hn
  have htake : cs.take n = (cs.takeWhile p).take n := by
    conv_lhs => rw [← List.takeWhile_append_dropWhile (p := p) (l := cs)]
    rw [List.take_append_of_le_length hn]
  have hmem : c ∈ cs.takeWhile p := by
    rw [htake] at hc
    exact List.mem_of_mem_take (List.mem_of_getLast? hc)
  exact h c (List.mem_takeWhile_imp hmem)

theorem getLast?_take_add (cs : List Char) (n m : Nat) :
    (cs.take (n + m)).getLast? = ((cs.drop n).take m).getLast?.or (cs.take n).getLast? := by
  rw [List.take_add, List.getLast?_append]

theorem Ends.andThen (hf : Ends P first) (hs : MayEnd P second) :
    Ends P (andThen first second) := by
  intro cs n hn
  obtain ⟨m, hm, k, hk, rfl⟩ := mem_andThen.1 hn
  obtain ⟨c, hlast, hc⟩ := hf cs m hm
  rw [getLast?_take_add, hlast]
  cases hmore : ((cs.drop m).take k).getLast? with
  | none => exact ⟨c, rfl, hc⟩
  | some d => exact ⟨d, rfl, hs _ k hk d hmore⟩

theorem Ends.andThen_right (first : Pattern) (hs : Ends P second) :
    Ends P (Pattern.andThen first second) := by
  intro cs n hn
  obtain ⟨m, -, k, hk, rfl⟩ := mem_andThen.1 hn
  obtain ⟨c, hlast, hc⟩ := hs _ k hk
  exact ⟨c, by rw [getLast?_take_add, hlast]; rfl, hc⟩

theorem Ends.orElse (hf : Ends P first) (hs : Ends P second) : Ends P (orElse first second) := by
  intro cs n hn
  rcases List.mem_append.1 hn with hn | hn
  · exact hf cs n hn
  · exact hs cs n hn

theorem MayEnd.orElse (hf : MayEnd P first) (hs : MayEnd P second) :
    MayEnd P (orElse first second) := by
  intro cs n hn
  rcases List.mem_append.1 hn with hn | hn
  · exact hf cs n hn
  · exact hs cs n hn

end Pattern

open Pattern

theorem not_mem_openingChars_of_isBlank {c : Char} (h : Text.isBlank c = true) :
    c ∉ openingChars := by
  have hall : ∀ c ∈ openingChars, Text.isBlank c = false := forall_mem_of_all (by decide)
  intro hc
  simp [hall c hc] at h

theorem not_mem_openingChars_of_isLineBlank {c : Char} (h : isLineBlank c = true) :
    c ∉ openingChars := by
  have hall : ∀ c ∈ openingChars, isLineBlank c = false := forall_mem_of_all (by decide)
  intro hc
  simp [hall c hc] at h

/-- A closing delimiter with what it takes along does not end like a part of an opening one. -/
theorem ends_closing {delimiter : List Char} (h : delimiter.getLast? = some '\x7d')
    (takesBreak : Bool) : Ends (· ∉ openingChars) (defaultRules.closing delimiter takesBreak) := by
  have hplain : Ends (· ∉ openingChars) (literal delimiter) := ends_literal h (by decide)
  have hmarked : ∀ mark, Ends (· ∉ openingChars) (literal (mark :: delimiter)) := fun mark =>
    ends_literal (c := '\x7d') (by rw [List.getLast?_cons, h]; rfl) (by decide)
  apply Ends.orElse
  · exact (hmarked _).andThen (mayEnd_run fun _ => not_mem_openingChars_of_isBlank)
  apply Ends.orElse
  · exact (hmarked _).andThen (mayEnd_run fun _ => not_mem_openingChars_of_isLineBlank)
  · cases takesBreak
    · exact hplain
    · have hbreak : MayEnd (· ∉ openingChars) (literal ['\n']) :=
        mayEnd_literal (by simp [openingChars])
      exact hplain.andThen (hbreak.orElse (mayEnd_literal (by simp)))

theorem ends_commentClose : Ends (· ∉ openingChars) defaultRules.commentClose :=
  ends_closing rfl true

theorem ends_blockClose : Ends (· ∉ openingChars) defaultRules.blockClose :=
  (ends_closing rfl true).andThen_right _

theorem ends_printClose : Ends (· ∉ openingChars) defaultRules.printClose :=
  (ends_closing rfl false).andThen_right _

theorem ends_wordTag (word : String) : Ends (· ∉ openingChars) (defaultRules.wordTag word) :=
  (((ends_closing rfl false).andThen_right _).andThen_right _).andThen_right _

section

variable {comments : Comments} {s t : State} {tokens : List Token} {code : List Char}

def Clear (s : State) : Prop :=
  s.rest = [] ∨ ∀ c ∈ s.previous, c ∉ openingChars

theorem clear_advance {pattern : Pattern} (h : Ends (· ∉ openingChars) pattern) {n : Nat}
    (hn : pattern.length? s.rest = some n) : Clear (s.advance n) := by
  obtain ⟨c, hlast, hc⟩ := h s.rest n (List.mem_of_head? hn)
  refine .inr fun d hd => ?_
  simp only [State.advance, hlast, Option.some_or, Option.mem_def, Option.some.injEq] at hd
  rwa [← hd]

theorem clear_findFirst {α : Type} {read? : List Char → Option α} {body : List Char} {result : α}
    (hfound : findFirst? read? s.rest = some (body, result)) {pattern : Pattern}
    (h : Ends (· ∉ openingChars) pattern) {n : Nat}
    (hn : ∀ cs, read? cs = some result → pattern.length? cs = some n) :
    Clear (s.advance (body.length + n)) := by
  obtain ⟨rest, hrest, hresult⟩ := findFirst?_eq_some hfound
  rw [← State.advance_advance]
  apply clear_advance h
  rw [State.rest_advance, hrest, List.drop_left]
  exact hn rest hresult

theorem realSearch_clear {body : List Char} {n : Nat}
    (h : realSearch defaultRules s.rest = some (body, n)) :
    Clear (s.advance (body.length + n)) :=
  clear_findFirst h ends_commentClose fun _ hn => hn

theorem verbatimStep_clear (h : verbatimStep defaultRules s = .ok (tokens, t)) : Clear t := by
  unfold verbatimStep at h
  split at h
  · simp at h
  · next body trim n hfound =>
    obtain ⟨rfl, rfl⟩ := Prod.mk.inj (Except.ok.inj h)
    refine clear_findFirst hfound
      ((ends_wordTag "endverbatim").andThen_right
        (literal (defaultRules.block.opening ++ defaultRules.markText trim))) fun cs hcs => ?_
    obtain ⟨mark, -, hmark⟩ := List.exists_of_findSome?_eq_some hcs
    obtain ⟨m, hm, he⟩ := Option.map_eq_some_iff.1 hmark
    obtain ⟨rfl, rfl⟩ := Prod.mk.inj he
    exact hm

theorem tagStep_clear {search : EndSearch}
    (hsearch : ∀ cs found, search cs = some found → search cs = realSearch defaultRules cs)
    {kind : TagKind} (h : tagStep defaultRules search kind s = .ok (.lexed (tokens, t)))
    (hnest : t.nesting = []) : Clear t := by
  unfold tagStep at h
  split at h
  · split at h
    · simp at h
    · next found =>
      obtain ⟨rfl, rfl⟩ := Prod.mk.inj (DataPiece.lexed.inj (Except.ok.inj h))
      exact realSearch_clear ((hsearch _ _ found).symm.trans found)
  · obtain ⟨rfl, rfl⟩ := Prod.mk.inj (DataPiece.lexed.inj (Except.ok.inj h))
    simp [State.enter] at hnest
  · split at h
    · obtain ⟨piece, hpiece, he⟩ := map_eq_ok.1 h
      obtain rfl := DataPiece.lexed.inj he
      exact verbatimStep_clear hpiece
    · obtain ⟨rfl, rfl⟩ := Prod.mk.inj (DataPiece.lexed.inj (Except.ok.inj h))
      simp [State.enter] at hnest

theorem dataStep_clear {search : EndSearch}
    (hsearch : ∀ cs found, search cs = some found → search cs = realSearch defaultRules cs)
    (h : dataStep defaultRules search s = .ok (.lexed (tokens, t))) (hnest : t.nesting = []) :
    Clear t := by
  unfold dataStep at h
  split at h
  · obtain ⟨rfl, rfl⟩ := Prod.mk.inj (DataPiece.lexed.inj (Except.ok.inj h))
    exact .inl (by simp)
  · obtain ⟨piece, hpiece, he⟩ := map_eq_ok.1 h
    cases piece with
    | openComment piece => simp [DataPiece.after] at he
    | lexed piece =>
      obtain ⟨rfl, rfl⟩ := Prod.mk.inj (DataPiece.lexed.inj he)
      exact tagStep_clear hsearch hpiece hnest

/-- Only the closing delimiter of a tag leads back to text. -/
theorem closeOrExpression_left {r : Rules} {close : Pattern} {kind : TokenKind}
    {closing : List Char} {part : Nesting} (hplace : s.nesting = [part]) (hpart : part ≠ .string)
    (hs : s.rest ≠ []) (h : closeOrExpression r close kind closing s = .ok (tokens, t))
    (hnest : t.nesting = []) :
    ∃ n, close.length? s.rest = some n ∧ t = (s.advance n).leave := by
  unfold closeOrExpression at h
  split at h
  · next n hn =>
    obtain ⟨rfl, rfl⟩ := Prod.mk.inj (Except.ok.inj h)
    refine ⟨n, ?_, rfl⟩
    split at hn
    · exact hn
    · simp at hn
  · rcases (expressionStep_worded hplace hpart hs h).stays with hstays | hstays
    · simp [hnest, hplace] at hstays
    · simp [hnest] at hstays

/-- Text begins behind the end of a tag and nowhere else. -/
theorem Move.eq_tag {before : List Nesting} (h : Move before tokens []) (hplace : InTag before) :
    before = [.block] ∨ before = [.print] := by
  cases h with
  | closeString => exact hplace.elim
  | closeInterpolation => exact hplace.elim
  | closeBlock => exact .inl rfl
  | closePrint => exact .inr rfl

theorem partStep_clear (hplace : InTag s.nesting) (hs : s.rest ≠ [])
    (h : partStep defaultRules s = .ok (tokens, t)) (hnest : t.nesting = []) : Clear t := by
  have hmove := (partStep_moved hs h).move
  rw [hnest] at hmove
  unfold partStep at h
  rcases hmove.eq_tag hplace with hpart | hpart
  · simp only [hpart] at h
    obtain ⟨n, hn, rfl⟩ := closeOrExpression_left hpart (by simp) hs (mapError_eq_ok.1 h) hnest
    exact clear_advance ends_blockClose hn
  · simp only [hpart] at h
    obtain ⟨n, hn, rfl⟩ := closeOrExpression_left hpart (by simp) hs (mapError_eq_ok.1 h) hnest
    exact clear_advance ends_printClose hn

/-- A step that leads to text ends where no tag start goes over its place. -/
theorem step_clear (hsound : Sound comments s) (hdone : isDone comments s = false)
    (h : step defaultRules comments s = .ok (tokens, t)) (hnest : t.nesting = []) : Clear t := by
  obtain ⟨-, hplaced⟩ := hsound
  generalize hplace : s.nesting = nesting at hplaced
  cases hplaced with
  | text =>
    cases comments with
    | drop =>
      exact dataStep_clear (fun _ _ _ => rfl) (dropStep_of_text hplace h) hnest
    | keep =>
      rcases keepStep_of_text hplace h with hdata | ⟨u, -, rfl⟩
      · refine dataStep_clear (fun cs found hfound => ?_) hdata hnest
        simp [armedSearch_eq_none] at hfound
      · simp [State.enter] at hnest
  | tag htag =>
    rw [← hplace] at htag
    rw [step_of_inTag htag] at h
    exact partStep_clear htag (rest_ne_nil_of_isDone (.inr htag) hdone) h hnest
  | comment hkeep =>
    subst hkeep
    have hcomment : commentStep defaultRules s = .ok (tokens, t) := by
      simp only [step, keepStep, hplace] at h
      exact mapError_eq_ok.1 h
    obtain ⟨body, n, hsearch, -, rfl⟩ := commentStep_ok hcomment
    exact realSearch_clear hsearch

theorem Reaches.clear (h : Reaches defaultRules comments s tokens t) (hs : Sound comments s)
    (hclear : s.nesting = [] → Clear s) : t.nesting = [] → Clear t := by
  induction h with
  | refl => exact hclear
  | step hdone hstep _ ih => exact ih (hs.step hdone hstep) (step_clear hs hdone hstep)

/-- Wherever the lexer stands in text, the tag starts ahead are those found by a search from
there. -/
theorem tagsAhead_of_reaches
    (h : Reaches defaultRules comments (.start defaultRules code) tokens s)
    (hnest : s.nesting = []) : s.tagsAhead = defaultRules.tagStartsFrom 0 s.offset s.rest := by
  have hclear : Clear s :=
    h.clear (sound_start _ _ _) (fun _ => .inr (by simp [State.start])) hnest
  obtain ⟨⟨passed, hcode, hoffset, hprevious, -⟩, htags⟩ := inOrder_of_reaches h
  -- Those in front of the state stand in the text it has passed, the others behind it.
  have hfront : ∀ start ∈ defaultRules.tagStartsFrom 0 0 passed, start.offset < s.offset := by
    intro start hstart
    have := bounds_of_mem_tagStartsFrom start hstart
    omega
  have hbehind : ∀ start ∈ defaultRules.tagStartsFrom 0 s.offset s.rest,
      s.offset ≤ start.offset := fun start hstart => (bounds_of_mem_tagStartsFrom start hstart).1
  have hsplit : defaultRules.tagStarts code =
      defaultRules.tagStartsFrom 0 0 passed ++ defaultRules.tagStartsFrom 0 s.offset s.rest := by
    rcases hclear with hrest | hlast
    · rw [hcode, hrest, List.append_nil]
      simp [Rules.tagStarts, Rules.tagStartsFrom]
    · rw [hcode, Rules.tagStarts, hoffset]
      simpa using tagStartsFrom_append (hprevious ▸ hlast) s.rest (Nat.zero_le _) 0
  rw [htags, hsplit, List.dropWhile_append_of_pos (by simpa using hfront)]
  cases hstarts : defaultRules.tagStartsFrom 0 s.offset s.rest with
  | nil => rfl
  | cons start starts =>
    have := hbehind start (by rw [hstarts]; exact List.mem_cons_self ..)
    rw [List.dropWhile_cons_of_neg (by simpa using this)]

end

def Scanned (s : State) : Prop :=
  s.tagsAhead = defaultRules.tagStartsFrom 0 s.offset s.rest

def TagStart.move (offset : Nat) (start : TagStart) : TagStart :=
  { start with offset := offset + start.offset }

theorem tagStart?_move (offset more : Nat) (cs : List Char) :
    defaultRules.tagStart? (offset + more) cs =
      (defaultRules.tagStart? more cs).map (TagStart.move offset) := by
  simp only [Rules.tagStart?, Option.map_map]
  rfl

theorem tagStartsFrom_move (skip offset more : Nat) (cs : List Char) :
    defaultRules.tagStartsFrom skip (offset + more) cs =
      (defaultRules.tagStartsFrom skip more cs).map (TagStart.move offset) := by
  induction cs generalizing skip more with
  | nil => simp [Rules.tagStartsFrom]
  | cons c cs ih =>
    cases skip with
    | succ skip => exact ih skip (more + 1)
    | zero =>
      rw [Rules.tagStartsFrom, Rules.tagStartsFrom, tagStart?_move]
      cases defaultRules.tagStart? more (c :: cs) with
      | none => exact ih 0 (more + 1)
      | some start => exact congrArg (start.move offset :: ·) (ih _ (more + 1))

theorem Scanned.tagsAhead_eq {s : State} (h : Scanned s) :
    s.tagsAhead = (defaultRules.tagStarts s.rest).map (TagStart.move s.offset) :=
  h.trans (tagStartsFrom_move 0 s.offset 0 s.rest)

theorem tagStart?_nil (r : Rules) (offset : Nat) : r.tagStart? offset [] = none := by
  rw [Rules.tagStart?, Option.map_eq_none_iff, List.find?_eq_none]
  intro opening hopening hprefix
  simp only [List.mem_cons, List.not_mem_nil, or_false] at hopening
  rw [List.isPrefixOf_iff_prefix, List.prefix_nil] at hprefix
  rcases hopening with rfl | rfl | rfl
  · exact r.print.opening_ne_nil hprefix
  · exact r.block.opening_ne_nil hprefix
  · exact r.comment.opening_ne_nil hprefix

theorem offset_of_tagStart? {r : Rules} {offset : Nat} {cs : List Char} {start : TagStart}
    (h : r.tagStart? offset cs = some start) : start.offset = offset := by
  obtain ⟨opening, -, rfl⟩ := Option.map_eq_some_iff.1 h
  rfl

/-- A tag start in a text behind some of its characters, with no other one in between. -/
structure IsNextTag (r : Rules) (code : List Char) (passed : Nat) (start : TagStart) : Prop where
  behind : passed ≤ start.offset
  found : r.tagStart? start.offset (code.drop start.offset) = some start
  first : ∀ place, passed ≤ place → place < start.offset →
    r.tagStart? place (code.drop place) = none

/-- A search stops at the first place with a tag start, and finds nothing if there is none. -/
theorem head?_tagStartsFrom (r : Rules) (passed cs : List Char) :
    (∀ start ∈ (r.tagStartsFrom 0 passed.length cs).head?,
      IsNextTag r (passed ++ cs) passed.length start) ∧
    ((r.tagStartsFrom 0 passed.length cs).head? = none →
      ∀ place, passed.length ≤ place → r.tagStart? place ((passed ++ cs).drop place) = none) := by
  induction cs generalizing passed with
  | nil =>
    refine ⟨by simp [Rules.tagStartsFrom], fun _ place hplace => ?_⟩
    rw [List.append_nil, List.drop_eq_nil_of_le hplace, tagStart?_nil]
  | cons c cs ih =>
    rw [Rules.tagStartsFrom]
    cases hstart : r.tagStart? passed.length (c :: cs) with
    | some start =>
      refine ⟨fun other hother => ?_, by simp⟩
      obtain rfl : start = other := by simpa using hother
      have hoffset := offset_of_tagStart? hstart
      refine ⟨Nat.le_of_eq hoffset.symm, ?_, fun place hle hlt => ?_⟩
      · rw [hoffset, List.drop_left, hstart]
      · omega
    | none =>
      have hmore := ih (passed ++ [c])
      simp only [List.length_append, List.length_singleton, List.append_assoc,
        List.singleton_append] at hmore
      obtain ⟨hfound, hnone⟩ := hmore
      have hhere : ∀ place, passed.length ≤ place → place < passed.length + 1 →
          r.tagStart? place ((passed ++ c :: cs).drop place) = none := by
        intro place hle hlt
        obtain rfl : place = passed.length := by omega
        rw [List.drop_left, hstart]
      constructor
      · intro start hhead
        have hnext := hfound start hhead
        refine ⟨by have := hnext.behind; omega, hnext.found, fun place hle hlt => ?_⟩
        rcases Nat.lt_or_ge place (passed.length + 1) with hplace | hplace
        · exact hhere place hle hplace
        · exact hnext.first place hplace hlt
      · intro hhead place hle
        rcases Nat.lt_or_ge place (passed.length + 1) with hplace | hplace
        · exact hhere place hle hplace
        · exact hnone hhead place hplace

/-- There is only one next tag start. -/
theorem IsNextTag.unique {r : Rules} {code : List Char} {passed : Nat} {start other : TagStart}
    (h : IsNextTag r code passed start) (hother : IsNextTag r code passed other) :
    start = other := by
  have hoffset : start.offset = other.offset := by
    rcases Nat.lt_trichotomy start.offset other.offset with hlt | heq | hlt
    · exact absurd (hother.first _ h.behind hlt) (by simp [h.found])
    · exact heq
    · exact absurd (h.first _ hother.behind hlt) (by simp [hother.found])
  have hfound := hother.found
  rw [← hoffset, h.found] at hfound
  exact Option.some.inj hfound

/-- Wherever a lexer with the default settings stands in text, the tag start that it takes from
those found at the start is the first one that a search of the text from there on finds, and it
takes none exactly if there is none. -/
theorem head?_tagsAhead_iff {comments : Comments} {lexer : Lexer}
    (hlexer : ofOptions {} comments = .ok lexer) (source : Source) {tokens : List Token} {s : State}
    (hreaches : Reaches lexer.rules comments
      (.start lexer.rules (unifyBreaks source.code.toList)) tokens s)
    (hnest : s.nesting = []) :
    (∀ start, s.tagsAhead.head? = some start ↔
      IsNextTag lexer.rules (unifyBreaks source.code.toList) s.offset start) ∧
    (s.tagsAhead.head? = none ↔ ∀ place, s.offset ≤ place →
      lexer.rules.tagStart? place ((unifyBreaks source.code.toList).drop place) = none) := by
  obtain ⟨r, hr, rfl⟩ := ofOptions_eq_ok.1 hlexer
  obtain rfl := Option.some.inj (ofOptions?_default.symm.trans hr)
  obtain ⟨passed, hcode, hoffset, -, -⟩ := standsIn_of_reaches hreaches
  obtain ⟨hfound, hnone⟩ := head?_tagStartsFrom defaultRules passed s.rest
  rw [tagsAhead_of_reaches hreaches hnest, hcode, hoffset]
  refine ⟨fun start => ⟨hfound start, fun hnext => ?_⟩, hnone, fun hall => ?_⟩
  · cases hhead : (defaultRules.tagStartsFrom 0 passed.length s.rest).head? with
    | none =>
      have := hnone hhead start.offset hnext.behind
      simp [hnext.found] at this
    | some other => rw [(hfound other hhead).unique hnext]
  · rw [Option.eq_none_iff_forall_ne_some]
    intro start hhead
    have hnext := hfound start hhead
    have hstart := hnext.found
    simp [hall start.offset hnext.behind] at hstart

/-- Behind a print tag with an opening delimiter in its string stands a tag with a trim mark. -/
theorem head?_tagsAhead_iff_string :
    ∃ lexer tokens s, ofOptions {} .drop = .ok lexer ∧
      Reaches lexer.rules .drop
        (.start lexer.rules (unifyBreaks "\x7b\x7b '\x7b%' \x7d\x7d\x7b%- x".toList)) tokens s ∧
      s.nesting = [] ∧ s.offset = 10 ∧ s.tagsAhead.head? = some ⟨10, 3, .block, some .all⟩ ∧
      IsNextTag lexer.rules (unifyBreaks "\x7b\x7b '\x7b%' \x7d\x7d\x7b%- x".toList) 10
        ⟨10, 3, .block, some .all⟩ := by
  obtain ⟨lexer, hlexer, tokens, s, hreaches, hnest, hoffset, hhead⟩ :
      ∃ lexer, ofOptions {} .drop = .ok lexer ∧ ∃ tokens s, Reaches lexer.rules .drop
        (.start lexer.rules (unifyBreaks "\x7b\x7b '\x7b%' \x7d\x7d\x7b%- x".toList)) tokens s ∧
        s.nesting = [] ∧ s.offset = 10 ∧
          s.tagsAhead.head? = some ⟨10, 3, .block, some .all⟩ := by
    refine ⟨_, rfl, _, _, .step rfl rfl (.step rfl rfl (.single rfl rfl)), ?_⟩
    exact ⟨rfl, rfl, rfl⟩
  have hnext := ((head?_tagsAhead_iff hlexer ⟨"page", _⟩ hreaches hnest).1 _).1 hhead
  rw [hoffset] at hnext
  exact ⟨lexer, tokens, s, hlexer, hreaches, hnest, hoffset, hhead, hnext⟩

end TemplateEngine.Lexer
