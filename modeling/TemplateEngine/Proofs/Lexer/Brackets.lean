import TemplateEngine.Proofs.Lexer.Reaches

/-!
The shape of the tokens of a template. Main statement: they are texts, comments and tags, and inside
each tag all brackets and interpolations are closed in order; wherever a lexer stands, text has no
open bracket and a string has its quote as the innermost one, so no step in a string fails.
-/

namespace TemplateEngine.Lexer

def bracketPairs : List (String × String) :=
  [("(", ")"), ("[", "]"), ("\x7b", "\x7d")]

/-- Token lists that can stand inside a tag: every bracket and every interpolation in them is
closed, one inside the other. -/
inductive Inner : List Token → Prop
  | nil : Inner []
  | plain {t : Token} {ts : List Token} (ht : t.IsPlain) (h : Inner ts) : Inner (t :: ts)
  | brackets {opener closer : Token} {inside ts : List Token} (hopener : opener.kind = .punctuation)
      (hcloser : closer.kind = .punctuation) (hpair : (opener.value, closer.value) ∈ bracketPairs)
      (hinside : Inner inside) (h : Inner ts) : Inner (opener :: (inside ++ closer :: ts))
  | interpolation {start ending : Token} {inside ts : List Token}
      (hstart : start.kind = .interpolationStart) (hending : ending.kind = .interpolationEnd)
      (hinside : Inner inside) (h : Inner ts) : Inner (start :: (inside ++ ending :: ts))

theorem Inner.append {ts more : List Token} (h : Inner ts) (hmore : Inner more) :
    Inner (ts ++ more) := by
  induction h with
  | nil => exact hmore
  | plain ht _ ih => exact .plain ht ih
  | brackets hopener hcloser hpair hinside _ _ ih =>
    rw [List.cons_append, List.append_assoc]
    exact .brackets hopener hcloser hpair hinside ih
  | interpolation hstart hending hinside _ _ ih =>
    rw [List.cons_append, List.append_assoc]
    exact .interpolation hstart hending hinside ih

inductive Item (comments : Comments) (delimiters : String × String) : List Token → Prop
  | text {t : Token} (ht : t.kind = .text) (hvalue : t.value ≠ "") : Item comments delimiters [t]
  | print {start ending : Token} {inside : List Token} (hstart : start.kind = .varStart)
      (hending : ending.kind = .varEnd) (h : Inner inside) :
      Item comments delimiters (start :: (inside ++ [ending]))
  | block {start ending : Token} {inside : List Token} (hstart : start.kind = .blockStart)
      (hending : ending.kind = .blockEnd) (h : Inner inside) :
      Item comments delimiters (start :: (inside ++ [ending]))
  | comment (line : Nat) (body : String) (h : comments = .keep) :
      Item comments delimiters (commentTokens delimiters line body)

inductive Items (comments : Comments) (delimiters : String × String) : List Token → Prop
  | nil : Items comments delimiters []
  | cons {item ts : List Token} (hitem : Item comments delimiters item)
      (h : Items comments delimiters ts) : Items comments delimiters (item ++ ts)

namespace Items

variable {comments : Comments} {delimiters : String × String} {ts more item : List Token}

theorem append (h : Items comments delimiters ts) (hmore : Items comments delimiters more) :
    Items comments delimiters (ts ++ more) := by
  induction h with
  | nil => exact hmore
  | cons hitem _ ih =>
    rw [List.append_assoc]
    exact .cons hitem ih

theorem snoc (h : Items comments delimiters ts) (hitem : Item comments delimiters item) :
    Items comments delimiters (ts ++ item) := by
  have hone : Items comments delimiters (item ++ []) := .cons hitem .nil
  rw [List.append_nil] at hone
  exact h.append hone

theorem texts (h : ∀ t ∈ ts, t.kind = .text ∧ t.value ≠ "") : Items comments delimiters ts := by
  induction ts with
  | nil => exact .nil
  | cons t ts ih =>
    obtain ⟨hkind, hvalue⟩ := h t (by simp)
    exact .cons (.text hkind hvalue) (ih fun u hu => h u (List.mem_cons_of_mem _ hu))

end Items

inductive Frame where
  | block
  | print
  | bracket (c : Char)
  | string
  | interpolation
  | comment

namespace Frame

def nesting? : Frame → Option Nesting
  | block => some .block
  | print => some .print
  | bracket _ => none
  | string => some .string
  | interpolation => some .interpolation
  | comment => some .comment

def opener? (opening : List Char) : Frame → Option (List Char)
  | bracket c => some [c]
  | string => some ['"']
  | interpolation => some opening
  | block | print | comment => none

def takesWords : Frame → Bool
  | block | print | bracket _ | interpolation => true
  | string | comment => false

end Frame

inductive Begun (comments : Comments) (delimiters : String × String) :
    List Frame → List Token → Prop
  | items {ts : List Token} (h : Items comments delimiters ts) : Begun comments delimiters [] ts
  | comment {ts : List Token} (hkeep : comments = .keep) (h : Items comments delimiters ts) :
      Begun comments delimiters [.comment] ts
  | print {ts inside : List Token} {start : Token} (h : Items comments delimiters ts)
      (hstart : start.kind = .varStart) (hinside : Inner inside) :
      Begun comments delimiters [.print] (ts ++ start :: inside)
  | block {ts inside : List Token} {start : Token} (h : Items comments delimiters ts)
      (hstart : start.kind = .blockStart) (hinside : Inner inside) :
      Begun comments delimiters [.block] (ts ++ start :: inside)
  | bracket {top : Frame} {frames : List Frame} {ts inside : List Token} {opener : Token} {c : Char}
      (h : Begun comments delimiters (top :: frames) ts) (htop : top.takesWords = true)
      (hc : isOpener c = true) (hkind : opener.kind = .punctuation)
      (hvalue : opener.value = String.ofList [c]) (hinside : Inner inside) :
      Begun comments delimiters (.bracket c :: top :: frames) (ts ++ opener :: inside)
  | string {top : Frame} {frames : List Frame} {ts : List Token}
      (h : Begun comments delimiters (top :: frames) ts) (htop : top.takesWords = true) :
      Begun comments delimiters (.string :: top :: frames) ts
  | interpolation {frames : List Frame} {ts inside : List Token} {start : Token}
      (h : Begun comments delimiters (.string :: frames) ts)
      (hstart : start.kind = .interpolationStart) (hinside : Inner inside) :
      Begun comments delimiters (.interpolation :: .string :: frames) (ts ++ start :: inside)

structure Fits (opening : List Char) (frames : List Frame) (nesting : List Nesting)
    (brackets : List Bracket) : Prop where
  nesting : frames.filterMap Frame.nesting? = nesting
  brackets : frames.filterMap (Frame.opener? opening) = brackets.map Bracket.opener

namespace Begun

variable {comments : Comments} {delimiters : String × String} {frames : List Frame} {top : Frame}
  {ts more : List Token}

/-- Inside a tag more tokens can follow. -/
theorem append (h : Begun comments delimiters frames ts) (hne : frames ≠ [])
    (hcomment : .comment ∉ frames) (hmore : Inner more) :
    Begun comments delimiters frames (ts ++ more) := by
  induction h with
  | items => exact absurd rfl hne
  | comment => simp at hcomment
  | print h hstart hinside =>
    rw [List.append_assoc, List.cons_append]
    exact .print h hstart (hinside.append hmore)
  | block h hstart hinside =>
    rw [List.append_assoc, List.cons_append]
    exact .block h hstart (hinside.append hmore)
  | bracket h htop hc hkind hvalue hinside =>
    rw [List.append_assoc, List.cons_append]
    exact .bracket h htop hc hkind hvalue (hinside.append hmore)
  | string h htop ih =>
    exact .string (ih (by simp) fun hmem => hcomment (List.mem_cons_of_mem _ hmem)) htop
  | interpolation h hstart hinside =>
    rw [List.append_assoc, List.cons_append]
    exact .interpolation h hstart (hinside.append hmore)

/-- Where brackets and strings can be opened, the innermost part is no string. -/
theorem head?_ne_string (h : Begun comments delimiters frames ts)
    (htop : frames.head?.all Frame.takesWords = true) :
    (frames.filterMap Frame.nesting?).head? ≠ some .string := by
  induction h with
  | items => simp
  | comment | print | block | interpolation => simp [Frame.nesting?]
  | bracket _ htop' _ _ _ _ ih => exact ih htop'
  | string => simp [Frame.takesWords] at htop

theorem eq_string_of_nesting (h : Begun comments delimiters frames ts) {outer : List Nesting}
    (hnest : frames.filterMap Frame.nesting? = .string :: outer) :
    ∃ top rest, frames = .string :: top :: rest ∧ top.takesWords = true := by
  cases h with
  | items | comment | print | block | interpolation => simp [Frame.nesting?] at hnest
  | bracket h htop =>
    have hhead := h.head?_ne_string (by simpa using htop)
    rw [List.filterMap_cons_none rfl] at hnest
    simp [hnest] at hhead
  | string _ htop => exact ⟨_, _, rfl, htop⟩

theorem eq_singleton_of_comment (h : Begun comments delimiters frames ts)
    (hmem : .comment ∈ frames) : frames = [.comment] := by
  induction h with
  | comment => rfl
  | items | print | block => simp at hmem
  | bracket _ htop _ _ _ _ ih =>
    have := ih (by simpa using hmem)
    simp_all [Frame.takesWords]
  | string _ htop ih =>
    have := ih (by simpa using hmem)
    simp_all [Frame.takesWords]
  | interpolation _ _ _ ih =>
    have := ih (by simpa using hmem)
    simp at this

theorem eq_nil_of_nesting (h : Begun comments delimiters frames ts)
    (hnest : frames.filterMap Frame.nesting? = []) : frames = [] := by
  induction h with
  | items => rfl
  | comment | print | block | string | interpolation => simp [Frame.nesting?] at hnest
  | bracket _ _ _ _ _ _ ih => simpa using ih hnest

theorem eq_comment_of_nesting (h : Begun comments delimiters frames ts)
    (hnest : frames.filterMap Frame.nesting? = [.comment]) : frames = [.comment] := by
  induction h with
  | comment => rfl
  | items | print | block | string | interpolation => simp [Frame.nesting?] at hnest
  | bracket _ htop _ _ _ _ ih =>
    obtain ⟨rfl, -⟩ := List.cons.inj (ih hnest)
    simp [Frame.takesWords] at htop

end Begun

theorem of_bracketOf? {closer c : Char} (h : bracketOf? closer = some c) :
    isOpener c = true ∧ (String.ofList [c], String.ofList [closer]) ∈ bracketPairs := by
  unfold bracketOf? at h
  split at h
  all_goals first
    | obtain rfl := Option.some.inj h
      exact ⟨by decide, by decide⟩
    | simp at h

/-- An opening delimiter of interpolations that is spelled like no bracket or quote. -/
def Distinct (opening : List Char) : Prop :=
  opening ≠ ['"'] ∧ ∀ c, isOpener c = true → opening ≠ [c]

section

variable {comments : Comments} {delimiters : String × String} {opening : List Char}
  {frames : List Frame} {ts tokens : List Token} {nesting after : List Nesting}
  {brackets closed : List Bracket} {outer : List (List Char)}

theorem Begun.exists_bracket (hdistinct : Distinct opening) {c : Char} (hc : isOpener c = true)
    (h : Begun comments delimiters frames ts)
    (hopeners : frames.filterMap (Frame.opener? opening) = [c] :: outer) :
    ∃ rest, frames = .bracket c :: rest := by
  cases h with
  | items | comment | print | block => simp [List.filterMap_cons, Frame.opener?] at hopeners
  | bracket =>
    simp only [List.filterMap_cons, Frame.opener?, List.cons.injEq, and_true] at hopeners
    obtain ⟨rfl, -⟩ := hopeners
    exact ⟨_, rfl⟩
  | string =>
    simp only [List.filterMap_cons, Frame.opener?, List.cons.injEq, and_true] at hopeners
    obtain ⟨rfl, -⟩ := hopeners
    simp [isOpener] at hc
  | interpolation =>
    simp only [List.filterMap_cons, Frame.opener?, List.cons.injEq] at hopeners
    exact absurd hopeners.1 (hdistinct.2 c hc)

theorem Begun.exists_interpolation (hdistinct : Distinct opening)
    (h : Begun comments delimiters frames ts)
    (hopeners : frames.filterMap (Frame.opener? opening) = opening :: outer) :
    ∃ rest, frames = .interpolation :: rest := by
  cases h with
  | items | comment | print | block => simp [List.filterMap_cons, Frame.opener?] at hopeners
  | bracket _ _ hc =>
    simp only [List.filterMap_cons, Frame.opener?, List.cons.injEq] at hopeners
    exact absurd hopeners.1.symm (hdistinct.2 _ hc)
  | string =>
    simp only [List.filterMap_cons, Frame.opener?, List.cons.injEq] at hopeners
    exact absurd hopeners.1.symm hdistinct.1
  | interpolation => exact ⟨_, rfl⟩

/-- Inside a tag where no bracket is open, the tag itself is the only frame. -/
theorem Begun.eq_tag (h : Begun comments delimiters frames ts) (hplace : InTag nesting)
    (hnest : frames.filterMap Frame.nesting? = nesting)
    (hopeners : frames.filterMap (Frame.opener? opening) = []) :
    frames = [.block] ∨ frames = [.print] := by
  cases h with
  | items | comment =>
    rw [← hnest] at hplace
    exact hplace.elim
  | print => exact .inr rfl
  | block => exact .inl rfl
  | bracket | string | interpolation => simp [Frame.opener?] at hopeners

/-- Where the innermost part is no string and no comment is open, the last frame takes words. -/
theorem exists_takesWords {part : Nesting} {outer : List Nesting} (hne : frames ≠ [])
    (hcomment : .comment ∉ frames) (hpart : part ≠ .string)
    (hnest : frames.filterMap Frame.nesting? = part :: outer) :
    ∃ top rest, frames = top :: rest ∧ top.takesWords = true := by
  obtain ⟨top, rest, rfl⟩ := List.exists_cons_of_ne_nil hne
  refine ⟨top, rest, rfl, ?_⟩
  cases top with
  | comment => simp at hcomment
  | string => exact absurd (List.cons.inj hnest).1.symm hpart
  | _ => rfl

/-- A turn inside a tag goes on with the tokens, and closes what was opened last. -/
theorem Begun.turn (hdistinct : Distinct opening) (h : Begun comments delimiters frames ts)
    (hfits : Fits opening frames nesting brackets) (hplace : InTag nesting)
    (hturn : Turn opening nesting brackets tokens after closed) :
    ∃ frames', Begun comments delimiters frames' (ts ++ tokens) ∧
      Fits opening frames' after closed := by
  obtain ⟨hnest, hopeners⟩ := hfits
  have hne : frames ≠ [] := by
    rintro rfl
    rw [← hnest] at hplace
    exact hplace
  have hcomment : .comment ∉ frames := by
    intro hmem
    rw [h.eq_singleton_of_comment hmem] at hnest
    rw [← hnest] at hplace
    exact hplace
  cases hturn with
  | plain ht => exact ⟨frames, h.append hne hcomment (.plain ht .nil), hnest, hopeners⟩
  | openBracket hpart hc hb hkind hvalue =>
    obtain ⟨top, rest, rfl, htop⟩ := exists_takesWords hne hcomment hpart hnest
    refine ⟨.bracket _ :: top :: rest, .bracket h htop hc hkind hvalue .nil, hnest, ?_⟩
    rw [List.map_cons, hb, ← hopeners]
    rfl
  | closeBracket hc hb hkind hvalue =>
    obtain ⟨hopener, hpair⟩ := of_bracketOf? hc
    rw [List.map_cons, hb] at hopeners
    obtain ⟨rest, rfl⟩ := h.exists_bracket hdistinct hopener hopeners
    cases h with
    | @bracket top rest ts inside opener _ h htop _ hkind' hvalue' hinside =>
      refine ⟨top :: rest, ?_, hnest, (List.cons.inj hopeners).2⟩
      rw [List.append_assoc]
      refine h.append (by simp) (by simpa using hcomment) ?_
      refine .brackets hkind' hkind ?_ hinside .nil
      rwa [hvalue', hvalue]
  | openString hpart hb =>
    obtain ⟨top, rest, rfl, htop⟩ := exists_takesWords hne hcomment hpart hnest
    refine ⟨.string :: top :: rest, ?_, congrArg (Nesting.string :: ·) hnest, ?_⟩
    · rw [List.append_nil]
      exact .string h htop
    · rw [List.map_cons, hb, ← hopeners]
      rfl
  | closeString hb =>
    obtain ⟨top, rest, rfl, htop⟩ := h.eq_string_of_nesting hnest
    cases h with
    | string h _ =>
      refine ⟨top :: rest, ?_, (List.cons.inj hnest).2, (List.cons.inj hopeners).2⟩
      rwa [List.append_nil]
  | leaveString =>
    obtain ⟨top, rest, rfl, htop⟩ := h.eq_string_of_nesting hnest
    simp [Frame.opener?] at hopeners
  | openInterpolation hb ht =>
    obtain ⟨top, rest, rfl, htop⟩ := h.eq_string_of_nesting hnest
    refine ⟨.interpolation :: .string :: top :: rest, .interpolation h ht .nil,
      congrArg (Nesting.interpolation :: ·) hnest, ?_⟩
    rw [List.map_cons, hb, ← hopeners]
    rfl
  | closeInterpolation hb ht =>
    rw [List.map_cons, hb] at hopeners
    obtain ⟨rest, rfl⟩ := h.exists_interpolation hdistinct hopeners
    cases h with
    | @interpolation rest ts inside start h hstart hinside =>
      refine ⟨.string :: rest, ?_, (List.cons.inj hnest).2, (List.cons.inj hopeners).2⟩
      rw [List.append_assoc]
      exact h.append (by simp) (by simpa using hcomment) (.interpolation hstart ht hinside .nil)
  | closeBlock ht =>
    rcases h.eq_tag hplace hnest hopeners with rfl | rfl
    · cases h with
      | block h hstart hinside =>
        refine ⟨[], .items ?_, (List.cons.inj hnest).2, rfl⟩
        rw [List.append_assoc]
        exact h.snoc (.block hstart ht hinside)
    · simp [Frame.nesting?] at hnest
  | closePrint ht =>
    rcases h.eq_tag hplace hnest hopeners with rfl | rfl
    · simp [Frame.nesting?] at hnest
    · cases h with
      | print h hstart hinside =>
        refine ⟨[], .items ?_, (List.cons.inj hnest).2, rfl⟩
        rw [List.append_assoc]
        exact h.snoc (.print hstart ht hinside)

end

section

variable {r : Rules} {comments : Comments} {s t : State} {tokens before : List Token}

def WellBegun (r : Rules) (comments : Comments) (before : List Token) (s : State) : Prop :=
  ∃ frames, Begun comments r.commentPair frames before ∧
    Fits r.interpolation.opening frames s.nesting s.brackets

theorem InText.brackets_eq {piece : Piece} (h : InText s piece) :
    piece.2.brackets = s.brackets := by
  obtain ⟨n, hn⟩ := h.movesOn
  rw [hn]
  rfl

/-- Every step keeps the tokens begun. -/
theorem WellBegun.stepped (hdistinct : Distinct r.interpolation.opening)
    (h : WellBegun r comments before s) (hstep : Stepped r comments s tokens t) :
    WellBegun r comments (before ++ tokens) t := by
  obtain ⟨frames, hbegun, hfits⟩ := h
  cases hstep with
  | turned hplace hturned => exact hbegun.turn hdistinct hfits hplace hturned.turn
  | text hplace hpiece htext =>
    obtain rfl := hbegun.eq_nil_of_nesting (hfits.nesting.trans hplace)
    have hbrackets := htext.brackets_eq
    have hvalues := htext.texts
    cases hbegun with
    | items hitems =>
      cases hpiece with
      | texts htexts hnest =>
        refine ⟨[], .items (hitems.append (.texts fun x hx => ?_)), hnest.symm, ?_⟩
        · exact ⟨htexts x hx, hvalues x hx (htexts x hx)⟩
        · exact hfits.brackets.trans (congrArg _ hbrackets.symm)
      | enters texts htokens htexts hstart =>
        subst htokens
        have hmore : Items comments r.commentPair (before ++ texts) := by
          refine hitems.append (.texts fun x hx => ?_)
          exact ⟨htexts x hx, hvalues x (List.mem_append_left _ hx) (htexts x hx)⟩
        rw [← List.append_assoc]
        rcases hstart with ⟨hstart, hnest⟩ | ⟨hstart, hnest⟩
        · refine ⟨[.block], .block hmore hstart .nil, hnest.symm, ?_⟩
          exact hfits.brackets.trans (congrArg _ hbrackets.symm)
        · refine ⟨[.print], .print hmore hstart .nil, hnest.symm, ?_⟩
          exact hfits.brackets.trans (congrArg _ hbrackets.symm)
  | openComment hkeep hplace hnest htexts htext =>
    obtain rfl := hbegun.eq_nil_of_nesting (hfits.nesting.trans hplace)
    cases hbegun with
    | items hitems =>
      refine ⟨[.comment], .comment hkeep (hitems.append (.texts fun x hx => ?_)), hnest.symm, ?_⟩
      · exact ⟨htexts x hx, htext.texts x hx (htexts x hx)⟩
      · exact hfits.brackets.trans (congrArg _ htext.brackets_eq.symm)
  | comment hkeep hplace =>
    obtain rfl := hbegun.eq_comment_of_nesting (hfits.nesting.trans hplace)
    cases hbegun with
    | comment _ hitems =>
      refine ⟨[], .items (hitems.snoc (.comment _ _ hkeep)), ?_, hfits.brackets⟩
      rw [State.leave, State.nesting_advance, hplace]
      rfl

theorem wellBegun_of_reaches (hdistinct : Distinct r.interpolation.opening) {code : List Char}
    (h : Reaches r comments (.start r code) tokens s) : WellBegun r comments tokens s := by
  have hstart : WellBegun r comments [] (.start r code) := ⟨[], .items .nil, rfl, rfl⟩
  exact h.induct (sound_start r comments code) [] hstart fun _ _ _ _ _ hbegun hstep =>
    hbegun.stepped hdistinct hstep

theorem WellBegun.brackets_eq_nil (h : WellBegun r comments before s) (hnest : s.nesting = []) :
    s.brackets = [] := by
  obtain ⟨frames, hbegun, hfits⟩ := h
  obtain rfl := hbegun.eq_nil_of_nesting (hfits.nesting.trans hnest)
  exact List.map_eq_nil_iff.1 hfits.brackets.symm

theorem WellBegun.exists_quote (h : WellBegun r comments before s) {outer : List Nesting}
    (hnest : s.nesting = .string :: outer) :
    ∃ quote brackets, s.brackets = quote :: brackets ∧ quote.opener = ['"'] := by
  obtain ⟨frames, hbegun, hfits⟩ := h
  obtain ⟨top, rest, rfl, -⟩ := hbegun.eq_string_of_nesting (hfits.nesting.trans hnest)
  obtain ⟨quote, brackets, hbrackets, hquote, -⟩ := List.map_eq_cons_iff.1 hfits.brackets.symm
  exact ⟨quote, brackets, hbrackets, hquote⟩

theorem isPrefixOf_of_interpolationStart {cs : List Char}
    (h : r.interpolationStart.length? cs = none) :
    r.interpolation.opening.isPrefixOf cs = false := by
  unfold Rules.interpolationStart Pattern.length? Pattern.andThen Pattern.literal Pattern.run at h
  split at h
  · simp at h
  · next hprefix => simpa only [Bool.not_eq_true] using hprefix

/-- The plain part of a string is only empty in front of its quote or an interpolation. -/
theorem isPrefixOf_of_plainLength {opening cs : List Char} {c : Char}
    (h : plainLength opening (c :: cs) = 0) (hc : c ≠ '"') :
    opening.isPrefixOf (c :: cs) = true := by
  cases cs with
  | nil =>
    rw [plainLength] at h
    split at h
    · simp_all
    · simp at h
  | cons d cs =>
    rw [plainLength] at h
    split at h
    · simp_all
    split at h
    · omega
    split at h
    · assumption
    · omega

/-- Inside a string whose quote is the innermost bracket, every step succeeds. -/
theorem exists_stringStep {quote : Bracket} {brackets : List Bracket} (hs : s.rest ≠ [])
    (hbrackets : s.brackets = quote :: brackets) (hquote : quote.opener = ['"']) :
    ∃ piece, stringStep r s = .ok piece := by
  unfold stringStep
  split
  · exact ⟨_, rfl⟩
  · next hstart =>
    simp only
    split
    · exact ⟨_, rfl⟩
    · next hplain =>
      obtain ⟨c, cs, hrest⟩ := List.exists_cons_of_ne_nil hs
      by_cases hc : c = '"'
      · subst hc
        simp [hrest, hbrackets, hquote]
      · rw [hrest] at hstart hplain
        have hprefix := isPrefixOf_of_plainLength (by simpa using hplain) hc
        simp [isPrefixOf_of_interpolationStart hstart] at hprefix

theorem State.nesting_of_mode_data (h : s.mode = .data) : s.nesting = [] := by
  unfold State.mode at h
  split at h
  · assumption
  · next part _ _ => cases part <;> simp [Nesting.mode] at h

theorem State.nesting_of_mode_string (h : s.mode = .string) :
    ∃ outer, s.nesting = .string :: outer := by
  unfold State.mode at h
  split at h
  · simp at h
  · next part outer hnest => cases part <;> simp [Nesting.mode] at h ⊢; exact ⟨outer, hnest⟩

/-- In text no bracket is open. In a string its quote is the innermost bracket, and unless the text
ends there a step leads on. -/
theorem WellBegun.places (h : WellBegun r comments before s) :
    (s.mode = .data → s.brackets = []) ∧
      (s.mode = .string → (∃ line outer, s.brackets = ⟨['"'], line⟩ :: outer) ∧
        (isDone comments s = false → ∃ piece, step r comments s = .ok piece)) := by
  refine ⟨fun hmode => h.brackets_eq_nil (State.nesting_of_mode_data hmode), fun hmode => ?_⟩
  obtain ⟨outer, hnest⟩ := State.nesting_of_mode_string hmode
  obtain ⟨⟨opener, line⟩, brackets, hbrackets, rfl⟩ := h.exists_quote hnest
  refine ⟨⟨line, brackets, hbrackets⟩, fun hdone => ?_⟩
  have hs : s.rest ≠ [] := by
    rintro hs
    cases comments <;> simp [isDone, hs, hmode] at hdone
  obtain ⟨piece, hpiece⟩ := exists_stringStep (r := r) hs hbrackets rfl
  refine ⟨piece, ?_⟩
  cases comments <;> simp [step, dropStep, keepStep, partStep, hnest, hpiece]

end

theorem Rules.interpolation_of_ofOptions? {options : Options} {r : Rules}
    (h : Rules.ofOptions? options = some r) :
    String.ofList r.interpolation.opening = options.interpolation.1 := by
  unfold Rules.ofOptions? at h
  simp only [Option.bind_eq_bind, Option.bind_eq_some_iff, Option.pure_def] at h
  obtain ⟨comment, -, block, -, print, -, interpolation, hinterpolation, h⟩ := h
  obtain rfl := Option.some.inj h
  exact congrArg Prod.fst (Delimiters.ofPair?_eq_some hinterpolation)

theorem distinct_of_not_mem {opening : List Char}
    (h : String.ofList opening ∉ ["(", "[", "\x7b", "\""]) : Distinct opening := by
  constructor
  · rintro rfl
    exact h (by decide)
  · rintro c hc rfl
    simp only [isOpener, Bool.or_eq_true, beq_iff_eq] at hc
    rcases hc with (rfl | rfl) | rfl <;> exact h (by decide)

/-- The tokens of a template are items and an end token, unless interpolations begin like a bracket
or a string. Wherever the lexer stands on the way, text has no open bracket, and in a string its
quote is the innermost one and the next step succeeds. -/
theorem tokenize_items {options : Options} {comments : Comments} {lexer : Lexer}
    (h : ofOptions options comments = .ok lexer)
    (hopening : options.interpolation.1 ∉ ["(", "[", "\x7b", "\""]) (source : Source) :
    (∀ stream, lexer.tokenize source = .ok stream →
      ∃ items eof, stream.tokens = items ++ [eof] ∧ eof.kind = .eof ∧
        Items comments options.comment items) ∧
      ∀ tokens s, Reaches lexer.rules comments
        (.start lexer.rules (unifyBreaks source.code.toList)) tokens s →
          (s.mode = .data → s.brackets = []) ∧
            (s.mode = .string → (∃ line outer, s.brackets = ⟨['"'], line⟩ :: outer) ∧
              (isDone comments s = false → ∃ piece, step lexer.rules comments s = .ok piece)) := by
  obtain ⟨r, hr, rfl⟩ := ofOptions_eq_ok.1 h
  rw [← Rules.interpolation_of_ofOptions? hr] at hopening
  have hdistinct := distinct_of_not_mem hopening
  refine ⟨fun stream hstream => ?_, fun tokens s hreaches =>
    (wellBegun_of_reaches hdistinct hreaches).places⟩
  rw [tokenize_eq_bind] at hstream
  obtain ⟨tokens, htokens, rfl⟩ := map_eq_ok.1 hstream
  obtain ⟨items, t, eof, hreaches, -, hfinish, rfl⟩ := tokens_eq_ok.1 (mapError_eq_ok.1 htokens)
  obtain ⟨hnest, heof⟩ := finish_ok hfinish
  obtain ⟨frames, hbegun, hfits⟩ := wellBegun_of_reaches hdistinct hreaches
  obtain rfl := hbegun.eq_nil_of_nesting (hfits.nesting.trans hnest)
  refine ⟨items, eof, ?_, heof, ?_⟩
  · rw [TokenStream.tokens_ofTokens, TokenStream.closeList_append_eof _ heof]
  · rw [← Rules.commentPair_of_ofOptions? hr]
    cases hbegun with
    | items hitems => exact hitems

/-- Under the default settings interpolations begin with a number sign. -/
theorem tokenize_items_default :
    ∃ lexer, ofOptions {} .keep = .ok lexer ∧
      "#\x7b" ∉ ["(", "[", "\x7b", "\""] ∧ ∀ source,
        (∀ stream, lexer.tokenize source = .ok stream →
          ∃ items eof, stream.tokens = items ++ [eof] ∧ eof.kind = .eof ∧
            Items .keep ("\x7b#", "#\x7d") items) ∧
          ∀ tokens s, Reaches lexer.rules .keep
            (.start lexer.rules (unifyBreaks source.code.toList)) tokens s →
              (s.mode = .data → s.brackets = []) ∧
                (s.mode = .string → (∃ line outer, s.brackets = ⟨['"'], line⟩ :: outer) ∧
                  (isDone .keep s = false → ∃ piece, step lexer.rules .keep s = .ok piece)) := by
  obtain ⟨lexer, hlexer⟩ : ∃ lexer, ofOptions {} .keep = .ok lexer := ⟨_, rfl⟩
  exact ⟨lexer, hlexer, by decide, fun source => tokenize_items hlexer (by decide) source⟩

end TemplateEngine.Lexer
