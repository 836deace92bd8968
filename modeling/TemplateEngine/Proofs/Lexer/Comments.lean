import TemplateEngine.Proofs.Lexer.Bounds
import TemplateEngine.Proofs.Lexer.Moves
import TemplateEngine.Proofs.Lexer.Runs

/-!
The two treatments of comments. Main statement: a lexer that keeps comments and one that passes over
them fail with the same error, or the tokens of the second are those of the first without the four
tokens of each comment.
-/

namespace TemplateEngine.Lexer

def commentTokens (delimiters : String × String) (line : Nat) (body : String) : List Token :=
  [⟨.blockStart, delimiters.1, line⟩, ⟨.name, "comment", line⟩, ⟨.text, body, line⟩,
    ⟨.blockEnd, delimiters.2, line⟩]

def isComment (delimiters : String × String) (opening name text closing : Token) : Bool :=
  opening.test .blockStart (some delimiters.1) && name.test .name (some "comment") &&
    text.test .text none && closing.test .blockEnd (some delimiters.2)

/-- Takes the tokens of kept comments away. -/
def withoutComments (delimiters : String × String) : List Token → List Token
  | a :: b :: c :: d :: rest =>
    if isComment delimiters a b c d then withoutComments delimiters rest
    else a :: withoutComments delimiters (b :: c :: d :: rest)
  | tokens => tokens

/-- Two token lists that differ by the comments which the first one keeps. Comments stand outside of
tags; `inTag` says whether the lists begin inside one, and `final` whether they end there. -/
inductive Omits (delimiters : String × String) (final : Bool) :
    Bool → List Token → List Token → Prop
  | nil : Omits delimiters final final [] []
  | text {t : Token} {kept dropped : List Token} (ht : t.kind = .text)
      (h : Omits delimiters final false kept dropped) :
      Omits delimiters final false (t :: kept) (t :: dropped)
  | opening {t : Token} {kept dropped : List Token} (ht : t.kind = .blockStart ∨ t.kind = .varStart)
      (h : Omits delimiters final true kept dropped) :
      Omits delimiters final false (t :: kept) (t :: dropped)
  | comment {line : Nat} {body : String} {kept dropped : List Token}
      (h : Omits delimiters final false kept dropped) :
      Omits delimiters final false (commentTokens delimiters line body ++ kept) dropped
  | inner {t : Token} {kept dropped : List Token} (ht : t.kind.isInner = true)
      (h : Omits delimiters final true kept dropped) :
      Omits delimiters final true (t :: kept) (t :: dropped)
  | closing {t : Token} {kept dropped : List Token} (ht : t.kind.EndsTag)
      (h : Omits delimiters final false kept dropped) :
      Omits delimiters final true (t :: kept) (t :: dropped)

namespace Omits

variable {delimiters : String × String} {final middle inTag : Bool} {kept dropped : List Token}

theorem append {more less : List Token} (h : Omits delimiters middle inTag kept dropped)
    (hmore : Omits delimiters final middle more less) :
    Omits delimiters final inTag (kept ++ more) (dropped ++ less) := by
  induction h with
  | nil => exact hmore
  | text ht _ ih => exact .text ht ih
  | opening ht _ ih => exact .opening ht ih
  | comment _ ih => exact .comment ih
  | inner ht _ ih => exact .inner ht ih
  | closing ht _ ih => exact .closing ht ih

theorem texts {tokens : List Token} (h : ∀ t ∈ tokens, t.kind = .text) :
    Omits delimiters false false tokens tokens := by
  induction tokens with
  | nil => exact .nil
  | cons t tokens ih =>
    exact .text (h t (by simp)) (ih fun u hu => h u (List.mem_cons_of_mem _ hu))

/-- The first token inside a tag is no text. -/
theorem kind_head_ne_text {t : Token} (h : Omits delimiters final true (t :: kept) dropped) :
    t.kind ≠ .text := by
  cases h with
  | inner ht => intro he; simp [he, TokenKind.isInner] at ht
  | closing ht => rcases ht with ht | ht <;> simp [ht]

/-- Inside a tag both lists have the same tokens up to the one that ends it. -/
theorem split_inside (h : Omits delimiters false true kept dropped) :
    ∃ inside ending ks ds, (∀ x ∈ inside, x.kind.isInner = true) ∧ ending.kind.EndsTag ∧
      Omits delimiters false false ks ds ∧ kept = inside ++ ending :: ks ∧
        dropped = inside ++ ending :: ds := by
  generalize hin : true = inTag at h
  induction h with
  | nil => simp at hin
  | text => simp at hin
  | opening => simp at hin
  | comment => simp at hin
  | @inner t _ _ ht _ ih =>
    obtain ⟨inside, ending, ks, ds, hinside, hending, homits, rfl, rfl⟩ := ih rfl
    refine ⟨t :: inside, ending, ks, ds, ?_, hending, homits, rfl, rfl⟩
    intro x hx
    rcases List.mem_cons.1 hx with rfl | hx
    · exact ht
    · exact hinside x hx
  | @closing t ks ds ht h => exact ⟨[], t, ks, ds, by simp, ht, h, rfl, rfl⟩

end Omits

def isInside (nesting : List Nesting) : Bool :=
  !nesting.isEmpty

theorem isInside_of_inTag {nesting : List Nesting} (h : InTag nesting) :
    isInside nesting = true := by
  cases nesting with
  | nil => exact h.elim
  | cons => rfl

theorem Move.omits {delimiters : String × String} {before after : List Nesting}
    {tokens : List Token} (h : Move before tokens after) (hb : InTag before) :
    Omits delimiters (isInside after) (isInside before) tokens tokens := by
  have hafter := h.inTag hb
  cases h with
  | word ht => exact .inner ht .nil
  | openString => exact .nil
  | closeString =>
    rw [isInside_of_inTag hb, isInside_of_inTag (show InTag after from hb)]
    exact .nil
  | openInterpolation ht => exact .inner ht .nil
  | closeInterpolation ht =>
    rw [isInside_of_inTag hb, isInside_of_inTag (show InTag after from hb)]
    exact .inner ht .nil
  | closeBlock ht =>
    cases after with
    | nil => exact .closing (.inl ht) .nil
    | cons => exact hb.elim
  | closePrint ht =>
    cases after with
    | nil => exact .closing (.inr ht) .nil
    | cons => exact hb.elim

theorem TextPiece.omits {delimiters : String × String} {tokens : List Token}
    {nesting : List Nesting} (h : TextPiece tokens nesting) :
    Omits delimiters (isInside nesting) false tokens tokens := by
  cases h with
  | texts htokens hnest =>
    subst hnest
    exact .texts htokens
  | enters _ htokens htexts hstart =>
    rw [htokens]
    rcases hstart with ⟨hstart, rfl⟩ | ⟨hstart, rfl⟩
    · exact (Omits.texts htexts).append (.opening (.inl hstart) .nil)
    · exact (Omits.texts htexts).append (.opening (.inr hstart) .nil)

theorem TextPiece.placed {tokens : List Token} {nesting : List Nesting}
    (h : TextPiece tokens nesting) : nesting = [] ∨ InTag nesting := by
  cases h with
  | texts _ hnest => exact .inl hnest
  | enters _ _ _ hstart =>
    rcases hstart with ⟨-, rfl⟩ | ⟨-, rfl⟩
    · exact .inr trivial
    · exact .inr trivial

theorem armedSearch_eq_none (cs : List Char) : armedSearch cs = none := by
  have hnever : ∀ cs, Pattern.never.length? cs = none := fun _ => rfl
  induction cs with
  | nil => rfl
  | cons c cs ih =>
    unfold armedSearch at ih ⊢
    simp [findFirst?, hnever, ih]

/-- What the real search makes of a comment that the other one left open. -/
def closeComment (r : Rules) : DataPiece → DataPiece
  | .lexed piece => .lexed piece
  | .openComment (tokens, s) =>
    match realSearch r s.rest with
    | none => .openComment (tokens, s)
    | some (body, n) => .lexed (tokens, s.advance (body.length + n))

theorem closeComment_after (r : Rules) (tokens : List Token) (piece : DataPiece) :
    closeComment r (piece.after tokens) = (closeComment r piece).after tokens := by
  cases piece with
  | lexed piece => rfl
  | openComment piece =>
    simp only [DataPiece.after, closeComment]
    split <;> rfl

theorem tagStep_realSearch (r : Rules) (kind : TagKind) (s : State) :
    tagStep r (realSearch r) kind s = (tagStep r armedSearch kind s).map (closeComment r) := by
  cases kind with
  | comment =>
    simp only [tagStep, armedSearch_eq_none, Except.map, closeComment]
    cases realSearch r s.rest <;> rfl
  | print => rfl
  | block =>
    simp only [tagStep]
    split
    · cases verbatimStep r (s.advance _) <;> rfl
    · rfl

theorem dataStep_realSearch (r : Rules) (s : State) :
    dataStep r (realSearch r) s = (dataStep r armedSearch s).map (closeComment r) := by
  unfold dataStep
  split
  · rfl
  · simp only [tagStep_realSearch]
    cases tagStep r armedSearch _ _ with
    | error e => rfl
    | ok piece => exact congrArg Except.ok (closeComment_after r _ piece).symm

/-- A kept comment leaves the state where passing over it does. -/
theorem commentStep_enter (r : Rules) (s : State) :
    commentStep r (s.enter .comment) =
      match realSearch r s.rest with
      | none => .error (.unclosedComment, s.line)
      | some (body, n) =>
        .ok
          (commentTokens (String.ofList r.comment.opening, String.ofList r.comment.closing) s.line
            (String.ofList body), s.advance (body.length + n)) := by
  have hrest : (s.enter .comment).rest = s.rest := rfl
  unfold commentStep
  rw [hrest]
  cases realSearch r s.rest <;> rfl

theorem realSearch_nil (r : Rules) : realSearch r [] = none := by
  unfold realSearch findFirst?
  rw [Option.map_eq_none_iff]
  cases h : r.commentClose.length? [] with
  | none => rfl
  | some n =>
    have hpos := (positive_commentClose r).length_pos h
    have hle := (bounded_commentClose r).length?_le h
    rw [List.length_nil] at hle
    omega

theorem realSearch_pos {r : Rules} {cs body : List Char} {n : Nat}
    (h : realSearch r cs = some (body, n)) : cs ≠ [] ∧ 0 < n := by
  obtain ⟨rest, -, hn⟩ := findFirst?_eq_some h
  constructor
  · rintro rfl
    simp [realSearch_nil] at h
  · exact (positive_commentClose r).length_pos hn

def Rules.commentPair (r : Rules) : String × String :=
  (String.ofList r.comment.opening, String.ofList r.comment.closing)

theorem keepStep_enter (r : Rules) (s : State) :
    step r .keep (s.enter .comment) = (commentStep r (s.enter .comment)).mapError .rejected :=
  rfl

/-- What the two lexers do with text. They fail alike, or they take the same step, or they meet a
comment: the first fails there or passes over it, and the second enters it and then fails likewise
or gives its tokens and ends where the first one does. -/
inductive TextRound (r : Rules) (s : State) : Prop
  | fault (e : Failure) (hdrop : step r .drop s = .error e) (hkeep : step r .keep s = .error e)
  | same {tokens : List Token} {t : State} (hdrop : step r .drop s = .ok (tokens, t))
      (hkeep : step r .keep s = .ok (tokens, t)) (hpiece : TextPiece tokens t.nesting)
      (hpassed : Passed s t)
  | unclosed {tokens : List Token} {t : State} (e : Failure) (hdrop : step r .drop s = .error e)
      (hkeep : step r .keep s = .ok (tokens, t.enter .comment)) (hpassed : Passed s t)
      (hcomment : step r .keep (t.enter .comment) = .error e)
  | comment {tokens : List Token} {t u : State} {line : Nat} {body : String}
      (hdrop : step r .drop s = .ok (tokens, u))
      (hkeep : step r .keep s = .ok (tokens, t.enter .comment)) (hpassed : Passed s t)
      (hcomment : step r .keep (t.enter .comment) =
        .ok (commentTokens r.commentPair line body, u))
      (htexts : ∀ x ∈ tokens, x.kind = .text) (hnest : u.nesting = []) (hbehind : Passed t u)

theorem textRound {r : Rules} {s : State} (hnest : s.nesting = []) (hs : s.rest ≠ [])
    (hfit : TagsFit s) : TextRound r s := by
  have hreal := dataStep_realSearch r s
  cases harmed : dataStep r armedSearch s with
  | error e =>
    refine .fault (.rejected e) ?_ (by simp [step, keepStep, hnest, harmed])
    simp [step, dropStep, hnest, hreal, harmed, Except.map]
  | ok piece =>
    cases piece with
    | lexed piece =>
      obtain ⟨hpiece, hpassed⟩ := dataStep_lexed hnest hs hfit harmed
      refine .same ?_ (by simp [step, keepStep, hnest, harmed]) hpiece hpassed
      simp [step, dropStep, hnest, hreal, harmed, Except.map, closeComment]
    | openComment piece =>
      obtain ⟨tokens, t⟩ := piece
      obtain ⟨htexts, hbehind, hpassed⟩ := dataStep_openComment hnest hs hfit harmed
      have hkeep : step r .keep s = .ok (tokens, t.enter .comment) := by
        simp [step, keepStep, hnest, harmed]
      have hcomment := keepStep_enter r t
      rw [commentStep_enter] at hcomment
      cases hsearch : realSearch r t.rest with
      | none =>
        rw [hsearch] at hcomment
        refine .unclosed _ ?_ hkeep hpassed hcomment
        simp [step, dropStep, hnest, hreal, harmed, Except.map, closeComment, hsearch]
      | some found =>
        obtain ⟨body, n⟩ := found
        obtain ⟨hrest, hn⟩ := realSearch_pos hsearch
        rw [hsearch] at hcomment
        refine .comment ?_ hkeep hpassed hcomment htexts hbehind
          ⟨length_rest_advance_lt hrest (by omega), fun _ hstart => hstart⟩
        simp [step, dropStep, hnest, hreal, harmed, Except.map, closeComment, hsearch]

/-- Inside a tag both lexers take the same steps. -/
theorem step_of_inTag {r : Rules} {s : State} (h : InTag s.nesting) (comments : Comments) :
    step r comments s = partStep r s := by
  cases comments <;> simp only [step, dropStep, keepStep] <;> split <;> simp_all [InTag]

/-- Outside of comments both lexers are done at the end of the text. -/
theorem isDone_of_rest_eq_nil {comments : Comments} {s : State} (hs : s.rest = [])
    (hplace : s.nesting = [] ∨ InTag s.nesting) : isDone comments s = true := by
  have hmode : s.mode ≠ .comment := by
    unfold State.mode
    rcases hplace with hnest | hnest
    · simp [hnest]
    · split
      · simp
      · next part outer hparts =>
        rw [hparts] at hnest
        cases part <;> simp_all [Nesting.mode, InTag]
  cases comments
  · simp [isDone, hs, hmode]
  · simp [isDone, hs]

def SameEnd (r : Rules) (inTag : Bool) (dropped kept : Piece) : Prop :=
  dropped.2 = kept.2 ∧ Omits r.commentPair (isInside dropped.2.nesting) inTag kept.1 dropped.1

theorem agree_after {r : Rules} {inTag middle : Bool} {ds ks : List Token}
    {x y : Except Failure Piece} (h : Agree (SameEnd r middle) x y)
    (hpieces : Omits r.commentPair middle inTag ks ds) :
    Agree (SameEnd r inTag) (x.map (Piece.after ds)) (y.map (Piece.after ks)) := by
  cases h with
  | error e => exact .error e
  | ok h => exact .ok ⟨h.1, hpieces.append h.2⟩

/-- Side by side from the same state, with enough steps for the text that is left: the lexer that
keeps comments takes two steps for each of them, over an opening and a closing delimiter. -/
theorem agree_run (r : Rules) {m k : Nat} {s : State} (hm : s.rest.length < m)
    (hk : s.rest.length < k) (hfit : TagsFit s) (hplace : s.nesting = [] ∨ InTag s.nesting) :
    Agree (SameEnd r (isInside s.nesting)) (run r .drop m s) (run r .keep k s) := by
  induction m generalizing k s with
  | zero => omega
  | succ m ih =>
    obtain ⟨k, rfl⟩ : ∃ j, k = j + 1 := ⟨k - 1, by omega⟩
    by_cases hs : s.rest = []
    · rw [run_done (isDone_of_rest_eq_nil hs hplace), run_done (isDone_of_rest_eq_nil hs hplace)]
      exact .ok ⟨rfl, .nil⟩
    have hdone : ∀ comments, isDone comments s = false := fun _ => isDone_eq_false hs
    rcases hplace with hnest | htag
    · cases textRound (r := r) hnest hs hfit with
      | fault e hdrop hkeep =>
        rw [run_succ_error (hdone _) hdrop, run_succ_error (hdone _) hkeep]
        exact .error e
      | same hdrop hkeep hpiece hpassed =>
        have hshorter := hpassed.shorter
        rw [run_succ (hdone _) hdrop, run_succ (hdone _) hkeep, hnest]
        exact agree_after (ih (by omega) (by omega) (hpassed.fits hfit) hpiece.placed) hpiece.omits
      | @unclosed tokens t e hdrop hkeep hpassed hcomment =>
        have hshorter := hpassed.shorter
        obtain ⟨k, rfl⟩ : ∃ j, k = j + 1 := ⟨k - 1, by omega⟩
        have hopen : isDone .keep (t.enter .comment) = false := by
          simp [isDone, State.enter, State.mode, Nesting.mode]
        rw [run_succ_error (hdone _) hdrop, run_succ (hdone _) hkeep, run_succ_error hopen hcomment]
        exact .error e
      | @comment tokens t u line body hdrop hkeep hpassed hcomment htexts hout hbehind =>
        have hshorter := hpassed.shorter
        have hshorter' := hbehind.shorter
        obtain ⟨k, rfl⟩ : ∃ j, k = j + 1 := ⟨k - 1, by omega⟩
        have hopen : isDone .keep (t.enter .comment) = false := by
          simp [isDone, State.enter, State.mode, Nesting.mode]
        have hrest := ih (k := k) (s := u) (by omega) (by omega)
          (hbehind.fits (hpassed.fits hfit)) (.inl hout)
        rw [run_succ (hdone _) hdrop, run_succ (hdone _) hkeep, run_succ hopen hcomment, hnest,
          map_after_after]
        have hpieces : Omits r.commentPair false false
            (tokens ++ commentTokens r.commentPair line body) (tokens ++ []) :=
          (Omits.texts htexts).append (.comment .nil)
        rw [List.append_nil] at hpieces
        rw [hout] at hrest
        exact agree_after hrest hpieces
    · have hstep := step_of_inTag (r := r) htag
      cases hpart : partStep r s with
      | error e =>
        rw [run_succ_error (hdone _) ((hstep _).trans hpart),
          run_succ_error (hdone _) ((hstep _).trans hpart)]
        exact .error e
      | ok piece =>
        have hmoved := partStep_moved hs hpart
        have hshorter := hmoved.shorter
        rw [run_succ (hdone _) ((hstep _).trans hpart), run_succ (hdone _) ((hstep _).trans hpart)]
        exact agree_after
          (ih (by omega) (by omega) (hmoved.passed.fits hfit) (hmoved.move.inTag htag))
          (hmoved.move.omits htag)

/-- Two token lists of whole templates: the same end token behind lists that differ by comments. -/
def OmitsComments (delimiters : String × String) (kept dropped : List Token) : Prop :=
  ∃ ks ds eof, kept = ks ++ [eof] ∧ dropped = ds ++ [eof] ∧ eof.kind = .eof ∧
    Omits delimiters false false ks ds

theorem withoutComments_cons {delimiters : String × String} {t : Token} {tokens : List Token}
    (h : ∀ a b c rest, tokens = a :: b :: c :: rest → isComment delimiters t a b c = false) :
    withoutComments delimiters (t :: tokens) = t :: withoutComments delimiters tokens := by
  match tokens with
  | [] | [_] | [_, _] => simp [withoutComments]
  | a :: b :: c :: rest => simp [withoutComments, h a b c rest rfl]

theorem withoutComments_cons_of_kind {delimiters : String × String} {t : Token}
    (ht : t.kind ≠ .blockStart) (tokens : List Token) :
    withoutComments delimiters (t :: tokens) = t :: withoutComments delimiters tokens :=
  withoutComments_cons fun _ _ _ _ _ => by simp [isComment, ht]

theorem withoutComments_commentTokens (delimiters : String × String) (line : Nat) (body : String)
    (tokens : List Token) :
    withoutComments delimiters (commentTokens delimiters line body ++ tokens) =
      withoutComments delimiters tokens := by
  simp [commentTokens, withoutComments, isComment]

/-- The name behind the opening delimiter of a tag is not followed by a text. -/
theorem Omits.isComment_eq_false {delimiters : String × String} {kept dropped rest : List Token}
    {eof a b c : Token} (h : Omits delimiters false true kept dropped)
    (htokens : kept ++ [eof] = a :: b :: c :: rest) (t : Token) :
    isComment delimiters t a b c = false := by
  cases h with
  | closing ht =>
    obtain ⟨rfl, -⟩ := List.cons.inj htokens
    rcases ht with ht | ht <;> simp [isComment, ht]
  | @inner u kept dropped ht h =>
    cases kept with
    | nil => simp at htokens
    | cons v kept =>
      obtain ⟨rfl, -⟩ := List.cons.inj (List.cons.inj htokens).2
      have hv := h.kind_head_ne_text
      simp [isComment, hv]

theorem Omits.withoutComments_eq {delimiters : String × String} {inTag : Bool}
    {kept dropped : List Token} (h : Omits delimiters false inTag kept dropped) (eof : Token) :
    withoutComments delimiters (kept ++ [eof]) = dropped ++ [eof] := by
  induction h with
  | nil => rfl
  | text ht _ ih =>
    rw [List.cons_append, withoutComments_cons_of_kind (by simp [ht]), ih, List.cons_append]
  | @opening t kept dropped _ h ih =>
    have hopen : withoutComments delimiters (t :: (kept ++ [eof])) =
        t :: withoutComments delimiters (kept ++ [eof]) :=
      withoutComments_cons fun a b c rest htokens => h.isComment_eq_false htokens t
    rw [List.cons_append, hopen, ih, List.cons_append]
  | comment _ ih => rw [List.append_assoc, withoutComments_commentTokens, ih]
  | @inner t _ _ ht _ ih =>
    have hkind : t.kind ≠ .blockStart := fun he => by simp [he, TokenKind.isInner] at ht
    rw [List.cons_append, withoutComments_cons_of_kind hkind, ih, List.cons_append]
  | @closing t _ _ ht _ ih =>
    have hkind : t.kind ≠ .blockStart := fun he => by simp [he, TokenKind.EndsTag] at ht
    rw [List.cons_append, withoutComments_cons_of_kind hkind, ih, List.cons_append]

theorem OmitsComments.withoutComments_eq {delimiters : String × String} {kept dropped : List Token}
    (h : OmitsComments delimiters kept dropped) : withoutComments delimiters kept = dropped := by
  obtain ⟨ks, ds, eof, rfl, rfl, -, h⟩ := h
  exact h.withoutComments_eq eof

theorem OmitsComments.exists_cons {delimiters : String × String} {kept dropped : List Token}
    (h : OmitsComments delimiters kept dropped) :
    (∃ token rest, kept = token :: rest) ∧ ∃ token rest, dropped = token :: rest := by
  obtain ⟨ks, ds, eof, rfl, rfl, -, -⟩ := h
  exact ⟨by cases ks <;> simp, by cases ds <;> simp⟩

theorem finish_ok {s : State} {eof : Token} (h : finish s = .ok eof) :
    s.nesting = [] ∧ eof.kind = .eof := by
  unfold finish at h
  split at h
  · simp at h
  · simp at h
  · next hnest =>
    obtain rfl := Except.ok.inj h
    exact ⟨hnest, rfl⟩

/-- The tokens of a text agree up to comments under both treatments of them. -/
theorem tokens_agree (r : Rules) (code : List Char) :
    Agree (fun dropped kept => OmitsComments r.commentPair kept dropped)
      (tokens ⟨r, .drop⟩ code) (tokens ⟨r, .keep⟩ code) := by
  have hrun := agree_run r (m := code.length + 1) (k := code.length + 1) (s := .start r code)
    (by simp [State.start]) (by simp [State.start]) (tagsFit_start r code) (.inl rfl)
  rw [tokens_eq_bind, tokens_eq_bind]
  apply hrun.bind
  intro dropped kept hend
  obtain ⟨hstate, homits⟩ := hend
  rw [← hstate]
  cases hfinish : finish dropped.2 with
  | error e => exact .error _
  | ok eof =>
    obtain ⟨hnest, heof⟩ := finish_ok hfinish
    rw [hnest] at homits
    exact .ok ⟨kept.1, dropped.1, eof, rfl, rfl, heof, homits⟩

structure SameStart (delimiters : String × String) (dropped kept : TokenStream) : Prop where
  source : dropped.source = kept.source
  dropped_before : dropped.before = []
  kept_before : kept.before = []
  omits : OmitsComments delimiters kept.tokens dropped.tokens

theorem OmitsComments.sameStart {delimiters : String × String} {kept dropped : List Token}
    (h : OmitsComments delimiters kept dropped) (source : String) :
    SameStart delimiters (.ofTokens dropped source) (.ofTokens kept source) := by
  refine ⟨by simp, by simp, by simp, ?_⟩
  obtain ⟨ks, ds, eof, rfl, rfl, heof, homits⟩ := h
  rw [TokenStream.tokens_ofTokens, TokenStream.tokens_ofTokens,
    TokenStream.closeList_append_eof _ heof, TokenStream.closeList_append_eof _ heof]
  exact ⟨ks, ds, eof, rfl, rfl, heof, homits⟩

/-- Both treatments of comments fail alike on a template, or give streams that agree up to
comments. -/
theorem tokenize_agree (r : Rules) (source : Source) :
    Agree (SameStart r.commentPair) (tokenize ⟨r, .drop⟩ source) (tokenize ⟨r, .keep⟩ source) := by
  rw [tokenize_eq_bind, tokenize_eq_bind]
  exact ((tokens_agree r _).mapError _).map fun _ _ h => h.sameStart source.name

theorem Delimiters.ofPair?_eq_some {pair : String × String} {delimiters : Delimiters}
    (h : Delimiters.ofPair? pair = some delimiters) :
    (String.ofList delimiters.opening, String.ofList delimiters.closing) = pair := by
  unfold Delimiters.ofPair? at h
  split at h
  · obtain rfl := Option.some.inj h
    simp
  · simp at h

theorem Rules.commentPair_of_ofOptions? {options : Options} {r : Rules}
    (h : Rules.ofOptions? options = some r) : r.commentPair = options.comment := by
  unfold Rules.ofOptions? at h
  simp only [Option.bind_eq_bind, Option.bind_eq_some_iff, Option.pure_def] at h
  obtain ⟨comment, hcomment, block, -, print, -, interpolation, -, h⟩ := h
  obtain rfl := Option.some.inj h
  exact Delimiters.ofPair?_eq_some hcomment

/-- A lexer that keeps comments exists whenever one that passes over them does. On every template
they fail with the same error, or the tokens of the second are those of the first without
comments. -/
theorem tokenize_drop_eq {options : Options} {dropping : Lexer}
    (hdrop : ofOptions options .drop = .ok dropping) :
    ∃ keeping, ofOptions options .keep = .ok keeping ∧ ∀ source,
      (dropping.tokenize source).map TokenStream.tokens =
        (keeping.tokenize source).map fun kept => withoutComments options.comment kept.tokens := by
  obtain ⟨r, hr, rfl⟩ := ofOptions_eq_ok.1 hdrop
  refine ⟨⟨r, .keep⟩, ofOptions_eq_ok.2 ⟨r, hr, rfl⟩, fun source => ?_⟩
  refine ((tokenize_agree r source).mono fun dropped kept h => ?_).map_eq
  rw [← Rules.commentPair_of_ofOptions? hr]
  exact h.omits.withoutComments_eq.symm

/-- The delimiters of the default settings are not empty. -/
theorem tokenize_drop_eq_default :
    ∃ dropping keeping, ofOptions {} .drop = .ok dropping ∧ ofOptions {} .keep = .ok keeping ∧
      ∀ source, (dropping.tokenize source).map TokenStream.tokens =
        (keeping.tokenize source).map fun kept =>
          withoutComments ("\x7b#", "#\x7d") kept.tokens := by
  have hdrop : ∃ dropping, ofOptions {} .drop = .ok dropping := ⟨_, rfl⟩
  obtain ⟨dropping, hdrop⟩ := hdrop
  obtain ⟨keeping, hkeep, htokens⟩ := tokenize_drop_eq hdrop
  exact ⟨dropping, keeping, hdrop, hkeep, htokens⟩

end TemplateEngine.Lexer
