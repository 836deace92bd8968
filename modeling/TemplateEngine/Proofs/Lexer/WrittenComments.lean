import Mathlib.Data.List.DropRight
import TemplateEngine.Proofs.Document.Printed
import TemplateEngine.Proofs.Lexer.Brackets
import TemplateEngine.Proofs.Lexer.Spaced
import TemplateEngine.Proofs.Lexer.TagStarts

/-!
Templates of texts and comments. Main statement: under the default rules a lexer that keeps comments
gives the texts, trimmed as the marks of the comments beside them say, and the exact bodies of the
comments.
-/

namespace TemplateEngine.Lexer

def Trim.mark : Option Trim → List Char
  | none => []
  | some .all => ['-']
  | some .line => ['~']

structure WrittenComment where
  opening : Option Trim
  body : List Char
  closing : Option Trim

namespace WrittenComment

def inside (c : WrittenComment) : List Char :=
  c.body ++ (Trim.mark c.closing ++ ['#', '\x7d'])

def chars (c : WrittenComment) : List Char :=
  '\x7b' :: '#' :: (Trim.mark c.opening ++ c.inside)

structure Readable (c : WrittenComment) : Prop where
  body : ¬ ['#', '\x7d'] <:+: c.body
  opening : c.opening = none →
    ∀ x ∈ (c.body ++ Trim.mark c.closing).head?, x ≠ '-' ∧ x ≠ '~'
  closing : c.closing = none → ∀ x ∈ c.body.getLast?, x ≠ '-' ∧ x ≠ '~'

end WrittenComment

def dropBreak : List Char → List Char
  | [] => []
  | c :: cs => if c = '\n' then cs else c :: cs

/-- Trims the front of a text behind a closing delimiter with the given mark. -/
def trimFront : Option Trim → List Char → List Char
  | some .all, cs => cs.dropWhile Text.isBlank
  | some .line, cs => cs.dropWhile ([' ', '\t', '\x00', '\x0B'].contains ·)
  | none, cs => dropBreak cs

/-- Trims the end of a text in front of an opening delimiter with the given mark. -/
def trimBack : Option Trim → List Char → List Char
  | some .all, cs => cs.rdropWhile ([' ', '\t', '\n', '\r', '\x00', '\x0B'].contains ·)
  | some .line, cs => cs.rdropWhile ([' ', '\t', '\x00', '\x0B'].contains ·)
  | none, cs => cs

/-- The characters of a text, and of comments with a text behind each. -/
def writtenChars (text : List Char) : List (WrittenComment × List Char) → List Char
  | [] => text
  | (c, next) :: more => text ++ (c.chars ++ writtenChars next more)

def textSpelling (text : List Char) : List Spelling :=
  if text.isEmpty then [] else [(.text, String.ofList text)]

def WrittenComment.spelling (c : WrittenComment) : List Spelling :=
  [(.blockStart, "\x7b#"), (.name, "comment"), (.text, String.ofList c.body), (.blockEnd, "#\x7d")]

/-- The tokens of a text whose front is trimmed, and of comments with a text behind each. -/
def writtenSpelling (text : List Char) : List (WrittenComment × List Char) → List Spelling
  | [] => textSpelling text
  | (c, next) :: more =>
    textSpelling (trimBack c.opening text) ++
      (c.spelling ++ writtenSpelling (trimFront c.closing next) more)

def NoOpening (text : List Char) : Prop :=
  ∀ c ∈ openingChars, ¬ ['\x7b', c] <:+: text

/-- Whether the texts and the comments of a template are read apart: no tag begins in a text, nor
with the end of one and the comment behind it. -/
structure Written (text : List Char) (parts : List (WrittenComment × List Char)) : Prop where
  texts : ∀ t ∈ text :: parts.map Prod.snd, NoOpening t
  ends : ∀ t ∈ (text :: parts.map Prod.snd).dropLast, t.getLast? ≠ some '\x7b'
  comments : ∀ c ∈ parts.map Prod.fst, c.Readable

theorem trimEnd_concat (p : Char → Bool) (cs : List Char) (c : Char) :
    Text.trimEnd p (cs ++ [c]) = if p c then Text.trimEnd p cs else cs ++ [c] := by
  induction cs with
  | nil => simp [Text.trimEnd]
  | cons d cs ih =>
    rw [List.cons_append, Text.trimEnd, ih]
    by_cases hc : p c = true
    · simp only [hc, if_true, Text.trimEnd]
    · simp only [hc, if_false, Bool.false_eq_true]
      split
      · simp_all
      · rfl

theorem trimEnd_eq_rdropWhile (p : Char → Bool) (cs : List Char) :
    Text.trimEnd p cs = cs.rdropWhile p := by
  induction cs using List.reverseRecOn with
  | nil => simp [Text.trimEnd]
  | append_singleton cs c ih => rw [trimEnd_concat, List.rdropWhile_concat, ih]

theorem isLineBlank_eq_contains : isLineBlank = ([' ', '\t', '\x00', '\x0B'].contains ·) := by
  funext c
  rw [Bool.eq_iff_iff]
  simp [isLineBlank, or_assoc]

theorem trimBefore_eq_trimBack (mark : Option Trim) (cs : List Char) :
    trimBefore mark cs = trimBack mark cs := by
  match mark with
  | none => rfl
  | some .all =>
    rw [trimBefore, trimBack, trimEnd_eq_rdropWhile]
    congr 1
    funext c
    rw [Bool.eq_iff_iff]
    simp only [Trim.drops, isLineBlank, Bool.or_eq_true, beq_iff_eq, List.contains_eq_mem,
      decide_eq_true_eq, List.mem_cons, List.not_mem_nil, or_false]
    grind
  | some .line =>
    rw [trimBefore, trimBack, trimEnd_eq_rdropWhile]
    congr 1
    exact isLineBlank_eq_contains

theorem trimFront_append (mark : Option Trim) (text : List Char) {behind : List Char}
    (h : ∀ c ∈ behind.head?, c = '\x7b') :
    trimFront mark (text ++ behind) = trimFront mark text ++ behind := by
  have hdrop : ∀ p : Char → Bool, p '\x7b' = false →
      (text ++ behind).dropWhile p = text.dropWhile p ++ behind := by
    intro p hp
    rw [List.dropWhile_append]
    split
    · next hempty =>
      rw [List.isEmpty_iff.1 hempty, List.nil_append]
      cases behind with
      | nil => rfl
      | cons c behind =>
        obtain rfl := h c rfl
        rw [List.dropWhile_cons_of_neg (by simp [hp])]
    · rfl
  match mark with
  | some .all => exact hdrop _ (by decide)
  | some .line => exact hdrop _ (by decide)
  | none =>
    cases text with
    | nil =>
      cases behind with
      | nil => rfl
      | cons c behind =>
        obtain rfl := h c rfl
        rfl
    | cons c text =>
      rw [List.cons_append, trimFront, trimFront, dropBreak, dropBreak]
      split <;> rfl

theorem trimFront_isSuffix (mark : Option Trim) (text : List Char) :
    trimFront mark text <:+ text := by
  match mark with
  | some .all => exact List.dropWhile_suffix _
  | some .line => exact List.dropWhile_suffix _
  | none =>
    rw [trimFront]
    unfold dropBreak
    split
    · exact List.suffix_refl _
    split
    · exact List.suffix_cons _ _
    · exact List.suffix_refl _

theorem commentClose_length? (cs : List Char) :
    defaultRules.commentClose.length? cs =
      if ['-', '#', '\x7d'].isPrefixOf cs then
        some (3 + ((cs.drop 3).takeWhile Text.isBlank).length)
      else if ['~', '#', '\x7d'].isPrefixOf cs then
        some (3 + ((cs.drop 3).takeWhile isLineBlank).length)
      else if ['#', '\x7d'].isPrefixOf cs then
        some (2 + if ['\n'].isPrefixOf (cs.drop 2) then 1 else 0)
      else none := by
  unfold Rules.commentClose Rules.closing
  simp only [Pattern.length?_orElse, Pattern.length?_literal_andThen, Pattern.length?_run,
    Pattern.optional, defaultRules, if_true]
  split
  · rfl
  split
  · rfl
  split
  · split <;> simp_all [Pattern.length?, Pattern.literal]
  · rfl

theorem drop_length_takeWhile (p : Char → Bool) (cs : List Char) :
    cs.drop (cs.takeWhile p).length = cs.dropWhile p := by
  have hsplit := List.takeWhile_append_dropWhile (p := p) (l := cs)
  calc cs.drop (cs.takeWhile p).length
      = (cs.takeWhile p ++ cs.dropWhile p).drop (cs.takeWhile p).length := by rw [hsplit]
    _ = cs.dropWhile p := List.drop_left

theorem drop_break (cs : List Char) :
    cs.drop (if ['\n'].isPrefixOf cs then 1 else 0) = dropBreak cs := by
  cases cs with
  | nil => rfl
  | cons c cs =>
    rw [dropBreak]
    by_cases hc : c = '\n'
    · simp [hc]
    · simp [hc, Ne.symm hc, List.isPrefixOf]

/-- The end of a comment takes along what its mark trims. -/
theorem exists_commentClose (mark : Option Trim) (cs : List Char) :
    ∃ n, defaultRules.commentClose.length? (Trim.mark mark ++ ['#', '\x7d'] ++ cs) = some n ∧
      (Trim.mark mark ++ ['#', '\x7d'] ++ cs).drop n = trimFront mark cs := by
  rw [commentClose_length?]
  match mark with
  | some .all =>
    refine ⟨_, rfl, ?_⟩
    rw [← List.drop_drop]
    exact drop_length_takeWhile _ cs
  | some .line =>
    refine ⟨_, rfl, ?_⟩
    rw [← List.drop_drop]
    refine (drop_length_takeWhile _ cs).trans ?_
    rw [isLineBlank_eq_contains]
    rfl
  | none =>
    refine ⟨_, rfl, ?_⟩
    rw [← List.drop_drop]
    exact drop_break cs

theorem head?_closing (mark : Option Trim) (cs : List Char) :
    (Trim.mark mark ++ ['#', '\x7d'] ++ cs).head? ≠ some '\x7d' := by
  match mark with
  | none => simp [Trim.mark]
  | some .all => simp [Trim.mark]
  | some .line => simp [Trim.mark]

theorem not_prefix_of_body {c : WrittenComment} (hc : c.Readable) {body : List Char}
    (hbody : body <:+ c.body) (hne : body ≠ []) (cs : List Char) :
    ¬ ['#', '\x7d'] <+: body ++ (Trim.mark c.closing ++ ['#', '\x7d'] ++ cs) := by
  intro hprefix
  match body with
  | [x] =>
    rw [List.singleton_append, List.cons_prefix_cons] at hprefix
    obtain ⟨more, hmore⟩ := hprefix.2
    exact head?_closing c.closing cs (by rw [← hmore]; rfl)
  | x :: y :: body =>
    rw [List.cons_append, List.cons_append, List.cons_prefix_cons, List.cons_prefix_cons] at hprefix
    obtain ⟨rfl, rfl, -⟩ := hprefix
    refine hc.body (List.IsInfix.trans ?_ hbody.isInfix)
    exact ⟨[], body, rfl⟩

/-- No end of a comment begins in its body. -/
theorem commentClose_eq_none {c : WrittenComment} (hc : c.Readable) {body : List Char}
    (hbody : body <:+ c.body) (hne : body ≠ []) (cs : List Char) :
    defaultRules.commentClose.length? (body ++ (Trim.mark c.closing ++ ['#', '\x7d'] ++ cs)) =
      none := by
  have hmarked : ∀ mark, mark = '-' ∨ mark = '~' →
      ¬ [mark, '#', '\x7d'] <+: body ++ (Trim.mark c.closing ++ ['#', '\x7d'] ++ cs) := by
    intro mark hmark hprefix
    obtain ⟨x, body, rfl⟩ := List.exists_cons_of_ne_nil hne
    rw [List.cons_append, List.cons_prefix_cons] at hprefix
    obtain ⟨rfl, hprefix⟩ := hprefix
    by_cases hlast : body = []
    · subst hlast
      have hend : c.body.getLast? = some mark := by
        obtain ⟨front, hfront⟩ := hbody
        rw [← hfront, List.getLast?_concat]
      cases hclosing : c.closing with
      | none =>
        have := hc.closing hclosing mark hend
        rcases hmark with rfl | rfl
        · exact this.1 rfl
        · exact this.2 rfl
      | some trim => cases trim <;> simp [hclosing, Trim.mark] at hprefix
    · exact not_prefix_of_body hc ((List.suffix_cons _ _).trans hbody) hlast cs hprefix
  rw [commentClose_length?, if_neg, if_neg, if_neg]
  · rw [List.isPrefixOf_iff_prefix]
    exact not_prefix_of_body hc hbody hne cs
  · rw [List.isPrefixOf_iff_prefix]
    exact hmarked '~' (.inr rfl)
  · rw [List.isPrefixOf_iff_prefix]
    exact hmarked '-' (.inl rfl)

theorem findFirst?_append {α : Type} {read? : List Char → Option α} {xs ys : List Char} {result : α}
    (hys : read? ys = some result)
    (hxs : ∀ front back, xs = front ++ back → back ≠ [] → read? (back ++ ys) = none) :
    findFirst? read? (xs ++ ys) = some (xs, result) := by
  induction xs with
  | nil =>
    cases ys with
    | nil => simp [findFirst?, hys]
    | cons y ys => simp [findFirst?, hys]
  | cons x xs ih =>
    have hfirst : read? (x :: (xs ++ ys)) = none := hxs [] (x :: xs) rfl (by simp)
    have hmore := ih fun front back hsplit => hxs (x :: front) back (by rw [hsplit]; rfl)
    rw [List.cons_append, findFirst?, hfirst, hmore]
    rfl

/-- The search for the end of a comment finds its body, and goes on behind what its mark trims. -/
theorem exists_realSearch {c : WrittenComment} (hc : c.Readable) (cs : List Char) :
    ∃ n, realSearch defaultRules (c.inside ++ cs) = some (c.body, n) ∧
      (c.inside ++ cs).drop (c.body.length + n) = trimFront c.closing cs := by
  obtain ⟨n, hn, hdrop⟩ := exists_commentClose c.closing cs
  refine ⟨n, ?_, ?_⟩
  · rw [WrittenComment.inside, List.append_assoc]
    apply findFirst?_append hn
    intro front back hbody hback
    exact commentClose_eq_none hc ⟨front, hbody.symm⟩ hback cs
  · rw [WrittenComment.inside, List.append_assoc, ← List.drop_drop, List.drop_left, hdrop]

theorem tagStartsFrom_text {text : List Char} (h : NoOpening text) {behind : List Char}
    (hend : text.getLast? ≠ some '\x7b' ∨ behind = []) (offset : Nat) :
    defaultRules.tagStartsFrom 0 offset (text ++ behind) =
      defaultRules.tagStartsFrom 0 (offset + text.length) behind := by
  induction text generalizing offset with
  | nil => rfl
  | cons c text ih =>
    have hnone : defaultRules.tagStart? offset (c :: (text ++ behind)) = none := by
      apply tagStart?_eq_none
      by_cases hc : c = '\x7b'
      · refine .inr fun d hd hopening => ?_
        subst hc
        cases text with
        | nil =>
          rcases hend with hend | rfl
          · exact hend rfl
          · simp at hd
        | cons e text =>
          obtain rfl : e = d := by simpa using hd
          exact h e hopening ⟨[], text, rfl⟩
      · exact .inl hc
    have hmore : NoOpening text := fun d hd hmore => h d hd (hmore.trans ⟨[c], [], by simp⟩)
    have hend' : text.getLast? ≠ some '\x7b' ∨ behind = [] := by
      refine hend.imp_left fun hlast htext => hlast ?_
      rw [List.getLast?_cons, htext]
      rfl
    rw [List.cons_append, Rules.tagStartsFrom, hnone]
    simp only
    rw [ih hmore hend', List.length_cons, Nat.add_assoc, Nat.add_comm 1]

theorem tagStart?_comment {c : WrittenComment} (hc : c.Readable) (offset : Nat)
    (behind : List Char) :
    defaultRules.tagStart? offset (c.chars ++ behind) =
      some ⟨offset, 2 + (Trim.mark c.opening).length, .comment, c.opening⟩ := by
  have hmark : defaultRules.trimMark? (Trim.mark c.opening ++ c.inside ++ behind) = c.opening := by
    cases hopening : c.opening with
    | some trim => cases trim <;> rfl
    | none =>
      obtain ⟨x, cs, hx, hxs⟩ : ∃ x cs, (x ≠ '-' ∧ x ≠ '~') ∧ c.inside ++ behind = x :: cs := by
        rw [WrittenComment.inside, ← List.append_assoc, List.append_assoc]
        have hfirst := hc.opening hopening
        cases hmarked : c.body ++ Trim.mark c.closing with
        | nil => exact ⟨'#', _, by decide, rfl⟩
        | cons x cs => exact ⟨x, _, hfirst x (by rw [hmarked]; rfl), rfl⟩
      show defaultRules.trimMark? (c.inside ++ behind) = none
      rw [hxs]
      simp [Rules.trimMark?, defaultRules, hx]
  have hopening : defaultRules.tagStart? offset (c.chars ++ behind) =
      some ⟨offset, 2 + (defaultRules.markText
        (defaultRules.trimMark? (Trim.mark c.opening ++ c.inside ++ behind))).length, .comment,
        defaultRules.trimMark? (Trim.mark c.opening ++ c.inside ++ behind)⟩ := rfl
  rw [hopening, hmark]
  cases c.opening with
  | some trim => cases trim <;> rfl
  | none => rfl

theorem dataStep_comment {c : WrittenComment} (hc : c.Readable) {text behind : List Char}
    (htext : NoOpening text) (hend : text.getLast? ≠ some '\x7b') {s : State}
    (hrest : s.rest = text ++ (c.chars ++ behind))
    (hahead : s.tagsAhead = defaultRules.tagStartsFrom 0 s.offset s.rest) :
    ∃ u, dataStep defaultRules armedSearch s =
        .ok (.openComment (s.textTokens (trimBack c.opening text), u)) ∧
      u.rest = c.inside ++ behind ∧ u.nesting = s.nesting ∧ u.brackets = s.brackets := by
  obtain ⟨later, hlater⟩ : ∃ later, s.tagsAhead =
      ⟨s.offset + text.length, 2 + (Trim.mark c.opening).length, .comment, c.opening⟩ :: later := by
    rw [hahead, hrest, tagStartsFrom_text htext (.inl hend)]
    have hstart := tagStart?_comment hc (s.offset + text.length) behind
    have hchars : c.chars ++ behind =
        '\x7b' :: ('#' :: (Trim.mark c.opening ++ c.inside) ++ behind) :=
      rfl
    rw [hchars] at hstart ⊢
    rw [Rules.tagStartsFrom, hstart]
    exact ⟨_, rfl⟩
  have htake : s.rest.take text.length = text := by rw [hrest, List.take_left]
  rw [State.tagsAhead] at hlater
  unfold dataStep
  rw [hlater]
  simp only [tagStep, armedSearch_eq_none, Nat.add_sub_cancel_left, Except.map, DataPiece.after,
    List.append_nil, trimBefore_eq_trimBack, htake]
  refine ⟨_, rfl, ?_, rfl, rfl⟩
  simp only [State.rest_advance, hrest, ← List.drop_drop, List.drop_left, WrittenComment.chars,
    List.cons_append, List.append_assoc, List.drop_succ_cons, List.drop_zero]

theorem exists_writtenChars (parts : List (WrittenComment × List Char)) :
    ∃ behind, (∀ c ∈ behind.head?, c = '\x7b') ∧
      ∀ text, writtenChars text parts = text ++ behind := by
  cases parts with
  | nil => exact ⟨[], by simp, fun text => (List.append_nil text).symm⟩
  | cons part parts => exact ⟨_, by simp [WrittenComment.chars], fun text => rfl⟩

namespace Written

variable {text next : List Char} {c : WrittenComment} {parts : List (WrittenComment × List Char)}

theorem tail (h : Written text ((c, next) :: parts)) : Written next parts where
  texts t ht := h.texts t (List.mem_cons_of_mem _ ht)
  ends t ht := h.ends t (List.mem_cons_of_mem _ ht)
  comments d hd := h.comments d (List.mem_cons_of_mem _ hd)

theorem trim (h : Written text parts) {trimmed : List Char} (htrimmed : trimmed <:+ text) :
    Written trimmed parts where
  texts t ht := by
    rcases List.mem_cons.1 ht with rfl | ht
    · exact fun d hd hmore =>
        h.texts text (List.mem_cons_self ..) d hd (hmore.trans htrimmed.isInfix)
    · exact h.texts t (List.mem_cons_of_mem _ ht)
  ends t ht := by
    cases hparts : parts.map Prod.snd with
    | nil => simp [hparts] at ht
    | cons next texts =>
      have hends := h.ends
      simp only [hparts, List.dropLast_cons_cons] at ht hends
      rcases List.mem_cons.1 ht with rfl | ht
      · intro hlast
        obtain ⟨front, rfl⟩ := htrimmed
        refine hends _ (List.mem_cons_self ..) ?_
        rw [List.getLast?_append, hlast]
        rfl
      · exact hends t (List.mem_cons_of_mem _ ht)
  comments := h.comments

theorem noOpening (h : Written text parts) : NoOpening text :=
  h.texts text (List.mem_cons_self ..)

theorem text_end (h : Written text ((c, next) :: parts)) : text.getLast? ≠ some '\x7b' :=
  h.ends text (by simp)

theorem comment (h : Written text ((c, next) :: parts)) : c.Readable :=
  h.comments c (by simp)

end Written

theorem map_spelling_textTokens (s : State) (text : List Char) :
    (s.textTokens text).map Token.spelling = textSpelling text := by
  unfold State.textTokens textSpelling
  split <;> rfl

/-- In front of a comment two steps lead behind it: over the text and the opening delimiter, and
over the body and the closing one. -/
theorem reaches_comment {c : WrittenComment} (hc : c.Readable) {text behind : List Char}
    (htext : NoOpening text) (hend : text.getLast? ≠ some '\x7b') {s : State}
    (hrest : s.rest = text ++ (c.chars ++ behind)) (hnest : s.nesting = [])
    (hahead : s.tagsAhead = defaultRules.tagStartsFrom 0 s.offset s.rest) :
    ∃ ts t, Reaches defaultRules .keep s ts t ∧ t.rest = trimFront c.closing behind ∧
      t.nesting = [] ∧ t.brackets = s.brackets ∧
      ts.map Token.spelling = textSpelling (trimBack c.opening text) ++ c.spelling := by
  obtain ⟨u, hdata, hu, hunest, hubrackets⟩ := dataStep_comment hc htext hend hrest hahead
  obtain ⟨n, hsearch, hdrop⟩ := exists_realSearch hc behind
  have hopen : Reaches defaultRules .keep s (s.textTokens (trimBack c.opening text))
      (u.enter .comment) := by
    refine .single (isDone_eq_false (by simp [hrest, WrittenComment.chars])) ?_
    simp [step, keepStep, hnest, hdata]
  have hclose : Reaches defaultRules .keep (u.enter .comment)
      (commentTokens defaultRules.commentPair u.line (String.ofList c.body))
      (u.advance (c.body.length + n)) := by
    refine .single (by simp [isDone, State.enter, State.mode, Nesting.mode]) ?_
    rw [keepStep_enter, commentStep_enter, hu, hsearch]
    rfl
  refine ⟨_, _, hopen.trans hclose, ?_, ?_, ?_, ?_⟩
  · rw [State.rest_advance, hu, hdrop]
  · rw [State.nesting_advance, hunest, hnest]
  · rw [State.brackets_advance, hubrackets]
  · rw [List.map_append, map_spelling_textTokens]
    rfl

/-- Behind the last tag one step leads to the end of the text. -/
theorem reaches_text {comments : Comments} {text : List Char} (htext : NoOpening text) {s : State}
    (hrest : s.rest = text) (hnest : s.nesting = [])
    (hahead : s.tagsAhead = defaultRules.tagStartsFrom 0 s.offset s.rest) :
    ∃ ts t, Reaches defaultRules comments s ts t ∧ isDone comments t = true ∧ t.nesting = [] ∧
      t.brackets = s.brackets ∧ ts.map Token.spelling = textSpelling text := by
  by_cases hempty : text = []
  · subst hempty
    exact ⟨[], s, .refl s, isDone_of_rest_eq_nil hrest (.inl hnest), hnest, rfl, rfl⟩
  · have hnone : s.tagsAhead = [] := by
      rw [hahead, hrest]
      simpa [Rules.tagStartsFrom] using tagStartsFrom_text htext (.inr rfl) s.offset
    rw [State.tagsAhead] at hnone
    have hstep : step defaultRules comments s =
        .ok (s.textTokens s.rest, s.advance s.rest.length) := by
      cases comments <;> simp [step, keepStep, dropStep, hnest, dataStep, hnone]
    refine ⟨_, _, .single (isDone_eq_false (by rwa [hrest])) hstep, ?_, hnest, rfl, ?_⟩
    · exact isDone_of_rest_eq_nil (by simp) (.inl hnest)
    · rw [map_spelling_textTokens, hrest]

/-- From a place in text the parts of a template lead to its end. -/
theorem reaches_written {code : List Char} {parts : List (WrittenComment × List Char)}
    {text : List Char} (h : Written text parts) {before : List Token} {s : State}
    (hs : Reaches defaultRules .keep (.start defaultRules code) before s)
    (hrest : s.rest = writtenChars text parts) (hnest : s.nesting = []) :
    ∃ ts t, Reaches defaultRules .keep s ts t ∧ isDone .keep t = true ∧ t.nesting = [] ∧
      t.brackets = s.brackets ∧ ts.map Token.spelling = writtenSpelling text parts := by
  induction parts generalizing text before s with
  | nil => exact reaches_text h.noOpening hrest hnest (tagsAhead_of_reaches hs hnest)
  | cons part parts ih =>
    obtain ⟨c, next⟩ := part
    obtain ⟨behind, hhead, hbehind⟩ := exists_writtenChars parts
    obtain ⟨ts, t, ht, htrest, htnest, htbrackets, hts⟩ :=
      reaches_comment h.comment h.noOpening h.text_end hrest hnest (tagsAhead_of_reaches hs hnest)
    have hmore : t.rest = writtenChars (trimFront c.closing next) parts := by
      rw [htrest, hbehind, hbehind, trimFront_append _ _ hhead]
    obtain ⟨us, u, hu, hdone, hunest, hubrackets, hus⟩ :=
      ih (h.tail.trim (trimFront_isSuffix c.closing next)) (hs.trans ht) hmore htnest
    refine ⟨ts ++ us, u, ht.trans hu, hdone, hunest, hubrackets.trans htbrackets, ?_⟩
    rw [List.map_append, hts, hus, writtenSpelling, List.append_assoc]

/-- A template of texts and comments without carriage returns is read into its trimmed texts and
the exact bodies of its comments. -/
theorem tokenize_written {lexer : Lexer} (hlexer : ofOptions {} .keep = .ok lexer)
    {text : List Char} {parts : List (WrittenComment × List Char)} (h : Written text parts)
    (hbreaks : '\r' ∉ writtenChars text parts) (name : String) :
    ∃ stream, lexer.tokenize ⟨name, String.ofList (writtenChars text parts)⟩ = .ok stream ∧
      stream.tokens.map Token.spelling = writtenSpelling text parts ++ [(.eof, "")] := by
  obtain ⟨r, hr, rfl⟩ := ofOptions_eq_ok.1 hlexer
  obtain rfl := Option.some.inj (ofOptions?_default.symm.trans hr)
  obtain ⟨ts, t, hreaches, hdone, hnest, hbrackets, hts⟩ :=
    reaches_written h (.refl (.start defaultRules (writtenChars text parts))) rfl rfl
  have hfinish : finish t = .ok (t.token .eof []) := by
    unfold finish
    rw [hbrackets, hnest]
    rfl
  have htokens : Lexer.tokens ⟨defaultRules, .keep⟩ (writtenChars text parts) = .ok _ :=
    tokens_eq_ok.2 ⟨ts, t, _, hreaches, hdone, hfinish, rfl⟩
  refine ⟨.ofTokens (ts ++ [t.token .eof []]) name, ?_, ?_⟩
  · rw [tokenize_eq_bind, String.toList_ofList, unifyBreaks_eq_self hbreaks, htokens]
    rfl
  · rw [TokenStream.tokens_ofTokens, TokenStream.closeList_append_eof _ rfl, List.map_append, hts]
    rfl

/-- A template with both kinds of marks, an empty text and an empty comment. -/
theorem tokenize_written_marks :
    ∃ lexer stream, ofOptions {} .keep = .ok lexer ∧
      Written ['a', ' '] [(⟨some .all, ['b', ' '], none⟩, ['\n']),
        (⟨some .all, [], some .line⟩, [' ', 'c'])] ∧
      lexer.tokenize ⟨"page", "a \x7b#-b #\x7d\n\x7b#-~#\x7d c"⟩ = .ok stream ∧
      stream.tokens.map Token.spelling = [(.text, "a"), (.blockStart, "\x7b#"), (.name, "comment"),
        (.text, "b "), (.blockEnd, "#\x7d"), (.blockStart, "\x7b#"), (.name, "comment"),
        (.text, ""), (.blockEnd, "#\x7d"), (.text, "c"), (.eof, "")] := by
  obtain ⟨lexer, hlexer⟩ : ∃ lexer, ofOptions {} .keep = .ok lexer := ⟨_, rfl⟩
  have hwritten : Written ['a', ' '] [(⟨some .all, ['b', ' '], none⟩, ['\n']),
      (⟨some .all, [], some .line⟩, [' ', 'c'])] := by
    refine ⟨?_, by decide, ?_⟩
    · simp only [NoOpening, openingChars, List.map_cons, List.map_nil, List.forall_mem_cons,
        List.not_mem_nil, false_implies, implies_true, and_true]
      decide
    · simp only [List.map_cons, List.map_nil, List.forall_mem_cons, List.not_mem_nil,
        false_implies, implies_true, and_true]
      constructor
      · exact ⟨by decide, by simp, by simp⟩
      · exact ⟨by decide, by simp, by simp⟩
  obtain ⟨stream, hstream, htokens⟩ := tokenize_written hlexer hwritten (by decide) "page"
  exact ⟨lexer, stream, hlexer, hwritten, hstream, htokens⟩

end TemplateEngine.Lexer
