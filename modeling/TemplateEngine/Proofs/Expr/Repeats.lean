import Mathlib.Data.List.Forall2
import TemplateEngine.Proofs.Expr.Passing

/-!
Reading the same tokens somewhere else. Main statement: what can be read from some tokens in front
of a next one can be read wherever tokens of the same kinds and values stand in front of such a next
one, if there are steps enough. Lines do not matter, and neither does what stands behind the next
token.
-/

namespace TemplateEngine

structure Token.Like (t u : Token) : Prop where
  kind : u.kind = t.kind
  value : t.kind.isWord = true → u.value = t.value

namespace Token.Like

variable {t u : Token}

theorem refl (t : Token) : t.Like t :=
  ⟨rfl, fun _ => rfl⟩

theorem value_eq (h : t.Like u) {kind : TokenKind} (hkind : t.kind = kind)
    (hword : kind.isWord = true) : u.value = t.value :=
  h.value (hkind ▸ hword)

theorem test_eq (h : t.Like u) {kind : TokenKind} {value? : Option String}
    (hkind : kind.isWord = true ∨ value? = none) : u.test kind value? = t.test kind value? := by
  unfold Token.test
  rw [h.kind]
  rcases hkind with hword | rfl
  · by_cases hsame : t.kind = kind
    · rw [h.value_eq hsame hword]
    · rw [beq_false_of_ne hsame, Bool.false_and, Bool.false_and]
  · rfl

end Token.Like

theorem exists_append_of_forall₂ {α β : Type} {R : α → β → Prop} {xs ys : List α} {zs : List β}
    (h : List.Forall₂ R (xs ++ ys) zs) :
    ∃ front back, zs = front ++ back ∧ List.Forall₂ R xs front ∧ List.Forall₂ R ys back := by
  have hfront := List.forall₂_take xs.length h
  have hback := List.forall₂_drop xs.length h
  rw [List.take_left] at hfront
  rw [List.drop_left] at hback
  exact ⟨_, _, (List.take_append_drop xs.length zs).symm, hfront, hback⟩

/-- The current token is not the last one of all, unless it ends an interpolation. Where a token is
looked for, the last one is not taken even if it is the one. -/
def TokenStream.GoesOn (s : TokenStream) : Prop :=
  s.after ≠ [] ∨ s.current.kind = .interpolationEnd

/-- The first tokens of lists that are alike up to the next token are alike. -/
theorem exists_like_head {s t : TokenStream} {us passed passed' rest : List Token} {next : Token}
    (hs : s.ahead = passed ++ t.ahead) (hu : us = passed' ++ next :: rest)
    (hpassed : List.Forall₂ Token.Like passed passed') (hnext : t.current.Like next) :
    ∃ x after, us = x :: after ∧ s.current.Like x := by
  cases hpassed with
  | nil => exact ⟨next, rest, hu, (List.cons.inj hs).1 ▸ hnext⟩
  | cons hx _ => exact ⟨_, _, hu, (List.cons.inj hs).1 ▸ hx⟩

theorem TokenStream.GoesOn.of_ahead {s t : TokenStream} {passed : List Token} (h : t.GoesOn)
    (hs : s.ahead = passed ++ t.ahead) : s.GoesOn := by
  cases passed with
  | nil =>
    obtain ⟨hcurrent, hafter⟩ := List.cons.inj hs
    rw [GoesOn, hcurrent, hafter]
    exact h
  | cons x passed =>
    left
    rw [(List.cons.inj hs).2]
    simp [ahead]

namespace TokenReader

variable {α β γ : Type} {steps extra : Nat} {s : TokenStream}

/-- If the first read gives a result from this stream, the second one gives a result wherever tokens
like those that are passed over stand in front of one like the next token, and takes exactly these.
For every token that is passed over it has six steps, and a few more. -/
def RepeatsAt (steps extra : Nat) (f g : TokenReader α) (s : TokenStream) : Prop :=
  ∀ a t, outcome f s = .ok (a, t) → ∃ passed, s.ahead = passed ++ t.ahead ∧
    (t.GoesOn → 6 * passed.length + extra ≤ steps →
      ∀ u passed' next rest, u.ahead = passed' ++ next :: rest →
        List.Forall₂ Token.Like passed passed' → t.current.Like next →
          Takes g u (fun _ => True) (next :: rest))

def Repeats (steps extra : Nat) (f g : TokenReader α) : Prop :=
  ∀ s, RepeatsAt steps extra f g s

namespace RepeatsAt

theorem pure (a b : α) (s : TokenStream) : RepeatsAt steps extra (Pure.pure a) (Pure.pure b) s := by
  intro a' t h
  obtain ⟨rfl, rfl⟩ := Prod.mk.inj (Except.ok.inj h)
  refine ⟨[], rfl, ?_⟩
  rintro - - u passed' next rest hu hpassed -
  cases hpassed
  exact .pure trivial hu

theorem fail (g : TokenReader α) (fault : SyntaxFault) (line : Nat) (s : TokenStream) :
    RepeatsAt steps extra (TokenReader.fail fault line) g s := by
  intro a t hread
  cases hread

theorem mono {steps' extra' : Nat} {f g : TokenReader α} (h : RepeatsAt steps extra f g s)
    (hle : ∀ n, 6 * n + extra' ≤ steps' → 6 * n + extra ≤ steps) :
    RepeatsAt steps' extra' f g s := by
  intro a t hf
  obtain ⟨passed, hs, hrepeat⟩ := h a t hf
  exact ⟨passed, hs, fun hgoes hsteps => hrepeat hgoes (hle _ hsteps)⟩

theorem bind {f g : TokenReader α} {F G : α → TokenReader β} (h : RepeatsAt steps extra f g s)
    (hrest : ∀ a b t, RepeatsAt steps extra (F a) (G b) t) :
    RepeatsAt steps extra (f >>= F) (g >>= G) s := by
  intro b v hread
  rw [outcome_bind] at hread
  obtain ⟨⟨a, t⟩, hf, hF⟩ := bind_eq_ok.1 hread
  obtain ⟨first, hs, hfirst⟩ := h a t hf
  obtain ⟨second, ht, -⟩ := hrest a a t b v hF
  refine ⟨first ++ second, by rw [hs, ht, List.append_assoc], ?_⟩
  intro hgoes hsteps u passed' next rest hu hpassed hnext
  rw [List.length_append] at hsteps
  obtain ⟨first', second', rfl, hfirst', hsecond'⟩ := exists_append_of_forall₂ hpassed
  rw [List.append_assoc] at hu
  obtain ⟨middle, after, hmiddle, hlike⟩ := exists_like_head ht rfl hsecond' hnext
  rw [hmiddle] at hu
  apply (hfirst (hgoes.of_ahead ht) (by omega) u first' middle after hu hfirst' hlike).bind
  intro c w _ hw
  obtain ⟨second'', ht', hsecond⟩ := hrest a c t b v hF
  obtain rfl := List.append_cancel_right (ht.symm.trans ht')
  exact hsecond hgoes (by omega) w second' next rest (hw.trans hmiddle.symm) hsecond' hnext

/-- What is read behind a token that is taken has six steps less. -/
theorem taken {f : TokenReader β} (wrap : Token → β) {F G : β → TokenReader γ}
    (hf : ∀ b t, outcome f s = .ok (b, t) → s.Past s.current t ∧ b = wrap s.current)
    (hg : ∀ u x y rest, u.ahead = x :: y :: rest → s.current.Like x →
      Takes f u (· = wrap x) (y :: rest))
    (hrest : ∀ x t, s.current.Like x →
      RepeatsAt steps (extra + 6) (F (wrap s.current)) (G (wrap x)) t) :
    RepeatsAt steps extra (f >>= F) (f >>= G) s := by
  intro c v hread
  rw [outcome_bind] at hread
  obtain ⟨⟨b, t⟩, hfirst, hF⟩ := bind_eq_ok.1 hread
  obtain ⟨⟨-, hs⟩, rfl⟩ := hf b t hfirst
  obtain ⟨passed, ht, -⟩ := hrest s.current t (.refl _) c v hF
  refine ⟨s.current :: passed, by rw [hs, ht, List.cons_append], ?_⟩
  intro hgoes hsteps u passed' next rest hu hpassed hnext
  rw [List.length_cons] at hsteps
  cases hpassed with
  | @cons _ x _ passed' hx hpassed =>
    obtain ⟨passed'', ht', hrepeat⟩ := hrest x t hx c v hF
    obtain rfl := List.append_cancel_right (ht.symm.trans ht')
    obtain ⟨y, after, hafter⟩ := List.exists_cons_of_ne_nil
      (List.append_ne_nil_of_right_ne_nil passed' (List.cons_ne_nil next rest))
    rw [List.cons_append, hafter] at hu
    apply (hg u x y after hu hx).bind
    rintro b w rfl hw
    exact hrepeat hgoes (by omega) w passed' next rest (hw.trans hafter.symm) hpassed hnext

theorem next {F G : Token → TokenReader α}
    (hrest : ∀ x t, s.current.Like x → RepeatsAt steps (extra + 6) (F s.current) (G x) t) :
    RepeatsAt steps extra (TokenReader.next >>= F) (TokenReader.next >>= G) s := by
  refine taken id (fun b t h => ?_) (fun u x y rest hu _ => .next hu) hrest
  obtain ⟨rfl, hs⟩ := (gives_next (E := fun _ => True) trivial).of_ok h
  exact ⟨⟨rfl, hs⟩, rfl⟩

theorem expect {kind : TokenKind} {value? : Option String}
    (hkind : kind.isWord = true ∨ value? = none) {F G : Token → TokenReader α}
    (hrest : ∀ x t, s.current.Like x → RepeatsAt steps (extra + 6) (F s.current) (G x) t) :
    RepeatsAt steps extra (TokenReader.expect kind value? >>= F)
      (TokenReader.expect kind value? >>= G) s := by
  cases htest : s.current.test kind value? with
  | false =>
    intro a t hread
    rw [outcome_bind, outcome_expect_of_test htest] at hread
    cases hread
  | true =>
    refine taken id (fun b t h => ?_) (fun u x y rest hu hx => ?_) hrest
    · obtain ⟨⟨rfl, hs⟩, -⟩ := (gives_expect (E := fun _ => True) trivial trivial).of_ok h
      exact ⟨⟨rfl, hs⟩, rfl⟩
    · exact .expect hu ((hx.test_eq hkind).trans htest)

theorem current {F G : Token → TokenReader α}
    (hrest : ∀ x, s.current.Like x → RepeatsAt steps extra (F s.current) (G x) s) :
    RepeatsAt steps extra (TokenReader.current >>= F) (TokenReader.current >>= G) s := by
  intro a t hread
  obtain ⟨passed, hs, -⟩ := hrest s.current (.refl _) a t hread
  refine ⟨passed, hs, ?_⟩
  intro hgoes hsteps u passed' next rest hu hpassed hnext
  obtain ⟨x, after, hx, hlike⟩ := exists_like_head hs hu hpassed hnext
  obtain ⟨passed'', hs', hrepeat⟩ := hrest x hlike a t hread
  obtain rfl := List.append_cancel_right (hs.symm.trans hs')
  exact .ofCurrent hx (hrepeat hgoes hsteps u passed' next rest hu hpassed hnext)

theorem test {kind : TokenKind} {value? : Option String}
    (hkind : kind.isWord = true ∨ value? = none) {F G : Bool → TokenReader α}
    (hrest : RepeatsAt steps extra (F (s.current.test kind value?))
      (G (s.current.test kind value?)) s) :
    RepeatsAt steps extra (TokenReader.test kind value? >>= F)
      (TokenReader.test kind value? >>= G) s := by
  have hcurrent : ∀ H : Bool → TokenReader α, (TokenReader.test kind value? >>= H) =
      TokenReader.current >>= fun token => H (token.test kind value?) := fun _ => rfl
  rw [hcurrent, hcurrent]
  refine current fun x hx => ?_
  rw [hx.test_eq hkind]
  exact hrest

theorem nextIf {kind : TokenKind} {value? : Option String}
    (hkind : kind.isWord = true ∨ value? = none) (hend : kind ≠ .interpolationEnd)
    {F G : Option Token → TokenReader α}
    (hsome : ∀ x t, s.current.Like x →
      RepeatsAt steps (extra + 6) (F (some s.current)) (G (some x)) t)
    (hnone : RepeatsAt steps extra (F none) (G none) s) :
    RepeatsAt steps extra (TokenReader.nextIf kind value? >>= F)
      (TokenReader.nextIf kind value? >>= G) s := by
  cases htest : s.current.test kind value? with
  | false =>
    intro a t hread
    rw [outcome_bind, outcome_nextIf_of_test htest] at hread
    obtain ⟨passed, hs, hrepeat⟩ := hnone a t hread
    refine ⟨passed, hs, ?_⟩
    intro hgoes hsteps u passed' next rest hu hpassed hnext
    obtain ⟨x, after, hx, hlike⟩ := exists_like_head hs hu hpassed hnext
    apply (Takes.nextIf_none hx ((hlike.test_eq hkind).trans htest)).bind
    rintro _ w rfl hw
    exact hrepeat hgoes hsteps w passed' next rest (hw.trans (hx.symm.trans hu)) hpassed hnext
  | true =>
    cases hafter : s.after with
    | nil =>
      -- The last token of all is what is looked for, and the stream does not go on behind it.
      intro a t hread
      rw [outcome_bind, outcome_nextIf_of_last hafter] at hread
      obtain ⟨passed, hs, -⟩ := hnone a t hread
      refine ⟨passed, hs, fun hgoes => ?_⟩
      rcases hgoes.of_ahead hs with hne | hkind'
      · exact absurd hafter hne
      · exact absurd ((Token.kind_of_test htest).symm.trans hkind') hend
    | cons token rest =>
      refine taken some (fun b t h => ?_) (fun u x y rest hu hx => ?_) hsome
      · rw [outcome_nextIf hafter, htest] at h
        obtain ⟨rfl, rfl⟩ := Prod.mk.inj (Except.ok.inj h)
        exact ⟨TokenStream.past_moved hafter, rfl⟩
      · exact .nextIf hu ((hx.test_eq hkind).trans htest)

end RepeatsAt

end TokenReader

namespace Expr

open TokenReader

structure AllRepeat (k k' : Nat) : Prop where
  readFrom (minimum : Nat) : Repeats k' 4 (readFrom k minimum) (readFrom k' minimum)
  readTail (minimum : Nat) (left left' : Expr) :
    Repeats k' 1 (readTail k minimum left) (readTail k' minimum left')
  readOperand : Repeats k' 3 (readOperand k) (readOperand k')
  readPrimary : Repeats k' 2 (readPrimary k) (readPrimary k')
  readParts (plainMayFollow : Bool) :
    Repeats k' 1 (readParts k plainMayFollow) (readParts k' plainMayFollow)
  readItems (isFirst : Bool) :
    Repeats k' (if isFirst then 5 else 1) (readItems k isFirst) (readItems k' isFirst)
  readArguments (isFirst : Bool) :
    Repeats k' (if isFirst then 5 else 1) (readArguments k isFirst) (readArguments k' isFirst)
  readPostfix (object object' : Expr) :
    Repeats k' 1 (readPostfix k object) (readPostfix k' object')

section

variable {t u : Token}

theorem binaryOp?_of_like (h : t.Like u) : binaryOp? u = binaryOp? t := by
  unfold binaryOp?
  rw [h.kind]
  split
  · next hkind => rw [h.value_eq hkind rfl]
  · rfl

theorem unaryOp?_of_like (h : t.Like u) : unaryOp? u = unaryOp? t := by
  unfold unaryOp?
  rw [h.kind]
  split
  · next hkind => rw [h.value_eq hkind rfl]
  · rfl

theorem isMark_of_like (h : t.Like u) (mark : String) : isMark u mark = isMark t mark := by
  have htest : u.test .punctuation (some mark) = t.test .punctuation (some mark) :=
    h.test_eq (.inl rfl)
  rwa [Token.test_some, Token.test_some] at htest

end

variable {k k' : Nat}

theorem readFrom_repeats (h : AllRepeat k k') (minimum : Nat) :
    Repeats (k' + 1) 4 (readFrom (k + 1) minimum) (readFrom (k' + 1) minimum) := by
  intro s
  rw [readFrom, readFrom, Grammar.expression, Grammar.expression]
  refine RepeatsAt.bind ((h.readOperand s).mono fun n hn => by omega) fun left left' t => ?_
  exact (h.readTail minimum left left' t).mono fun n hn => by omega

theorem readTail_repeats (h : AllRepeat k k') (minimum : Nat) (left left' : Expr) :
    Repeats (k' + 1) 1 (readTail (k + 1) minimum left) (readTail (k' + 1) minimum left') := by
  intro s
  rw [readTail, readTail, Grammar.operators, Grammar.operators]
  refine .current fun x hx => ?_
  rw [binaryOp?_of_like hx]
  cases hop : binaryOp? s.current with
  | none => exact .pure left left' s
  | some op =>
    simp only
    split
    · exact .pure left left' s
    · refine .next fun _ t _ => ?_
      refine .bind ((h.readFrom op.rightMinimum t).mono fun n hn => by omega)
        fun right right' t => ?_
      exact (h.readTail minimum _ _ t).mono fun n hn => by omega

theorem readOperand_repeats (h : AllRepeat k k') :
    Repeats (k' + 1) 3 (readOperand (k + 1)) (readOperand (k' + 1)) := by
  intro s
  rw [readOperand, readOperand, Grammar.operand, Grammar.operand]
  refine .current fun x hx => ?_
  rw [unaryOp?_of_like hx]
  cases unaryOp? s.current with
  | none =>
    refine .bind ((h.readPrimary s).mono fun n hn => by omega) fun primary primary' t => ?_
    exact (h.readPostfix primary primary' t).mono fun n hn => by omega
  | some op =>
    refine .next fun _ t _ => ?_
    refine .bind ((h.readFrom op.precedence t).mono fun n hn => by omega)
      fun operand operand' t => ?_
    exact .pure _ _ t

theorem readNumber_repeats {extra : Nat} {s : TokenStream} (hkind : s.current.kind = .number) :
    RepeatsAt k' extra readNumber readNumber s := by
  unfold readNumber
  refine .next fun x t hx => ?_
  rw [hx.value_eq hkind rfl]
  split
  · exact .pure _ _ t
  · exact .fail _ _ _ t

theorem readPrimary_repeats (h : AllRepeat k k') :
    Repeats (k' + 1) 2 (readPrimary (k + 1)) (readPrimary (k' + 1)) := by
  intro s
  rw [readPrimary, readPrimary, Grammar.primary, Grammar.primary]
  refine .current fun x hx => ?_
  have hparts : ∀ line line', RepeatsAt (k' + 1) 2
      (readParts k true >>= fun parts => pure (concatAll line parts))
      (readParts k' true >>= fun parts => pure (concatAll line' parts)) s := fun line line' =>
    .bind ((h.readParts true s).mono fun n hn => by omega) fun _ _ t => .pure _ _ t
  rw [hx.kind]
  split
  · exact .next fun _ t _ => .pure _ _ t
  · next hkind => exact readNumber_repeats hkind
  · exact hparts _ _
  · exact hparts _ _
  · rw [isMark_of_like hx, isMark_of_like hx]
    split
    · refine .next fun _ t _ => ?_
      refine .bind ((h.readFrom 0 t).mono fun n hn => by omega) fun inner inner' t => ?_
      exact .expect (.inl rfl) fun _ t _ => .pure inner inner' t
    split
    · refine .next fun _ t _ => ?_
      refine .bind ((h.readItems true t).mono fun n hn => by simp only [if_true]; omega)
        fun items items' t => ?_
      exact .expect (.inl rfl) fun _ t _ => .pure _ _ t
    · exact .fail _ _ _ s

theorem readParts_repeats (h : AllRepeat k k') (plainMayFollow : Bool) :
    Repeats (k' + 1) 1 (readParts (k + 1) plainMayFollow) (readParts (k' + 1) plainMayFollow) := by
  intro s
  have hinterpolation : RepeatsAt (k' + 1) 1 (readParts (k + 1) false)
      (readParts (k' + 1) false) s := by
    rw [readParts, readParts, Grammar.parts, Grammar.parts]
    refine .nextIf (.inr rfl) (by simp) (fun _ t _ => ?_) (.pure [] [] s)
    refine .bind ((h.readFrom 0 t).mono fun n hn => by omega) fun inner inner' t => ?_
    refine .expect (.inr rfl) fun _ t _ => ?_
    exact .bind ((h.readParts true t).mono fun n hn => by omega) fun _ _ t => .pure _ _ t
  cases plainMayFollow with
  | false => exact hinterpolation
  | true =>
    rw [readParts, readParts, Grammar.parts, Grammar.parts] at hinterpolation ⊢
    refine .nextIf (.inl rfl) (by simp) (fun _ t _ => ?_) hinterpolation
    exact .bind ((h.readParts false t).mono fun n hn => by omega) fun _ _ t => .pure _ _ t

theorem readItems_repeats (h : AllRepeat k k') (isFirst : Bool) :
    Repeats (k' + 1) (if isFirst then 5 else 1) (readItems (k + 1) isFirst)
      (readItems (k' + 1) isFirst) := by
  intro s
  rw [readItems, readItems, Grammar.items, Grammar.items]
  have hitem : ∀ t, RepeatsAt k' 4
      (do
        if ← test .punctuation (some "]") then return []
        else
          let item ← readFrom k 0
          let items ← readItems k false
          return item :: items)
      (do
        if ← test .punctuation (some "]") then return []
        else
          let item ← readFrom k' 0
          let items ← readItems k' false
          return item :: items) t := by
    intro t
    refine .test (.inl rfl) ?_
    split
    · exact .pure [] [] t
    · refine .bind (h.readFrom 0 t) fun item item' t => ?_
      refine .bind ((h.readItems false t).mono fun n hn => ?_) fun _ _ t => .pure _ _ t
      simp only [Bool.false_eq_true, if_false]
      omega
  refine .test (.inl rfl) ?_
  cases s.current.test .punctuation (some "]") with
  | true => exact .pure [] [] s
  | false =>
    cases isFirst with
    | true => exact (hitem s).mono fun n hn => by simp only [if_true] at hn; omega
    | false =>
      refine .expect (.inl rfl) fun _ t _ => ?_
      exact (hitem t).mono fun n hn => by simp only [Bool.false_eq_true, if_false] at hn; omega

theorem readArguments_repeats (h : AllRepeat k k') (isFirst : Bool) :
    Repeats (k' + 1) (if isFirst then 5 else 1) (readArguments (k + 1) isFirst)
      (readArguments (k' + 1) isFirst) := by
  intro s
  rw [readArguments, readArguments, Grammar.arguments, Grammar.arguments]
  have hargument : ∀ t, RepeatsAt k' 4
      (do
        let arg ← readFrom k 0
        let args ← readArguments k false
        return arg :: args)
      (do
        let arg ← readFrom k' 0
        let args ← readArguments k' false
        return arg :: args) t := by
    intro t
    refine .bind (h.readFrom 0 t) fun arg arg' t => ?_
    refine .bind ((h.readArguments false t).mono fun n hn => ?_) fun _ _ t => .pure _ _ t
    simp only [Bool.false_eq_true, if_false]
    omega
  refine .test (.inl rfl) ?_
  cases s.current.test .punctuation (some ")") with
  | true => exact .pure [] [] s
  | false =>
    cases isFirst with
    | true => exact (hargument s).mono fun n hn => by simp only [if_true] at hn; omega
    | false =>
      refine .expect (.inl rfl) fun _ t _ => ?_
      exact (hargument t).mono fun n hn => by simp only [Bool.false_eq_true, if_false] at hn; omega

theorem readMember_repeats {extra : Nat} (s : TokenStream) :
    RepeatsAt k' extra readMember readMember s := by
  unfold readMember
  refine .current fun x hx => ?_
  rw [hx.kind]
  split
  · exact .next fun _ t _ => .pure _ _ t
  · exact .fail _ _ _ s

theorem readPostfix_repeats (h : AllRepeat k k') (object object' : Expr) :
    Repeats (k' + 1) 1 (readPostfix (k + 1) object) (readPostfix (k' + 1) object') := by
  intro s
  rw [readPostfix, readPostfix, Grammar.accesses, Grammar.accesses]
  refine .current fun x hx => ?_
  have hmore : ∀ {object object' : Expr} (t : TokenStream),
      RepeatsAt (k' + 1) (1 + 6) (readPostfix k object) (readPostfix k' object') t :=
    fun t => (h.readPostfix _ _ t).mono fun n hn => by omega
  rw [isMark_of_like hx, isMark_of_like hx, isMark_of_like hx]
  split
  · refine .next fun _ t _ => ?_
    exact .bind (readMember_repeats t) fun _ _ t => hmore t
  split
  · refine .next fun _ t _ => ?_
    refine .bind ((h.readFrom 0 t).mono fun n hn => by omega) fun index index' t => ?_
    exact .expect (.inl rfl) fun _ t _ => (hmore t).mono fun n hn => by omega
  split
  · refine .next fun _ t _ => ?_
    refine .expect (.inl rfl) fun name t hname => ?_
    refine .test (.inl rfl) ?_
    split
    · refine .next fun _ t _ => ?_
      refine .bind ((h.readArguments true t).mono fun n hn => by simp only [if_true]; omega)
        fun args args' t => ?_
      exact .expect (.inl rfl) fun _ t _ => (hmore t).mono fun n hn => by omega
    · exact (hmore t).mono fun n hn => by omega
  · exact .pure object object' s

/-- Without steps nothing has to be repeated. -/
theorem repeats_of_zero {α : Type} {extra : Nat} {f : TokenReader α} (h : StaysInside f)
    (hextra : 0 < extra) (g : TokenReader α) : Repeats 0 extra f g := by
  intro s a t hread
  obtain ⟨passed, -, -, hs⟩ := (h s).of_ok hread
  exact ⟨passed, hs, fun _ hsteps => by omega⟩

theorem allRepeat_zero (k : Nat) : AllRepeat k 0 where
  readFrom minimum := repeats_of_zero ((allStayInside k).readFrom minimum) (by omega) _
  readTail minimum left _ := repeats_of_zero ((allStayInside k).readTail minimum left) (by omega) _
  readOperand := repeats_of_zero (allStayInside k).readOperand (by omega) _
  readPrimary := repeats_of_zero (allStayInside k).readPrimary (by omega) _
  readParts may := repeats_of_zero ((allStayInside k).readParts may) (by omega) _
  readItems isFirst := repeats_of_zero ((allStayInside k).readItems isFirst) (by split <;> omega) _
  readArguments isFirst :=
    repeats_of_zero ((allStayInside k).readArguments isFirst) (by split <;> omega) _
  readPostfix object _ := repeats_of_zero ((allStayInside k).readPostfix object) (by omega) _

/-- A read without steps gives nothing. -/
theorem repeats_stop {α : Type} {extra : Nat} (g : TokenReader α) : Repeats k' extra stop g := by
  intro s a t hread
  cases hread

theorem allRepeat (k k' : Nat) : AllRepeat k k' := by
  induction k generalizing k' with
  | zero =>
    exact
      { readFrom := fun _ => by rw [readFrom]; exact repeats_stop _
        readTail := fun _ _ _ => by rw [readTail]; exact repeats_stop _
        readOperand := by rw [readOperand]; exact repeats_stop _
        readPrimary := by rw [readPrimary]; exact repeats_stop _
        readParts := fun _ => by rw [readParts]; exact repeats_stop _
        readItems := fun _ => by rw [readItems]; exact repeats_stop _
        readArguments := fun _ => by rw [readArguments]; exact repeats_stop _
        readPostfix := fun _ _ => by rw [readPostfix]; exact repeats_stop _ }
  | succ k ih =>
    cases k' with
    | zero => exact allRepeat_zero (k + 1)
    | succ k' =>
      have h := ih k'
      exact
        { readFrom := readFrom_repeats h
          readTail := readTail_repeats h
          readOperand := readOperand_repeats h
          readPrimary := readPrimary_repeats h
          readParts := readParts_repeats h
          readItems := readItems_repeats h
          readArguments := readArguments_repeats h
          readPostfix := readPostfix_repeats h }

/-- Where an expression has been read, one can be read from tokens like its own in front of a token
like the next one, if there are steps enough. -/
theorem takes_readFrom_of_like {minimum : Nat} {s t u : TokenStream} {e : Expr}
    {passed passed' rest : List Token} {next : Token}
    (hread : outcome (readFrom k minimum) s = .ok (e, t)) (hs : s.ahead = passed ++ t.ahead)
    (hgoes : t.GoesOn) (hpassed : List.Forall₂ Token.Like passed passed')
    (hnext : t.current.Like next) (hu : u.ahead = passed' ++ next :: rest)
    (hk : 6 * passed.length + 4 ≤ k') :
    Takes (readFrom k' minimum) u (fun _ => True) (next :: rest) := by
  obtain ⟨passed'', hs', hrepeat⟩ := (allRepeat k k').readFrom minimum s e t hread
  obtain rfl := List.append_cancel_right (hs.symm.trans hs')
  exact hrepeat hgoes hk u passed' next rest hu hpassed hnext

end Expr

end TemplateEngine
