import TemplateEngine.Proofs.Expr.Locality

/-!
The tokens that reading passes over. Main statement: an expression is made of tokens inside a tag
only and ends the interpolations that it starts; whatever stands behind it is left ahead.
-/

namespace TemplateEngine

namespace TokenStream

variable {s t u : TokenStream}

/-- Only tokens inside a tag stand between two places of a template, and all interpolations that
start there end there. -/
def PassesTo (s t : TokenStream) : Prop :=
  ∃ passed, (∀ x ∈ passed, x.kind.isInner = true) ∧ Paired passed ∧ s.ahead = passed ++ t.ahead

theorem PassesTo.refl (s : TokenStream) : s.PassesTo s :=
  ⟨[], by simp, paired_nil, by simp⟩

theorem PassesTo.trans (h : s.PassesTo t) (h' : t.PassesTo u) : s.PassesTo u := by
  obtain ⟨first, hfirst, hpaired, hs⟩ := h
  obtain ⟨second, hsecond, hpaired', ht⟩ := h'
  refine ⟨first ++ second, List.forall_mem_append.2 ⟨hfirst, hsecond⟩, hpaired.append hpaired', ?_⟩
  rw [hs, ht, List.append_assoc]

theorem Past.passesTo {token : Token} (h : s.Past token t) (htoken : token.kind.isWord = true) :
    s.PassesTo t :=
  ⟨[token], by simpa using TokenKind.isInner_of_isWord htoken, paired_word htoken, h.2⟩

/-- Between the start and the end of an interpolation. -/
theorem PassesTo.interpolation {start ending : Token} {v : TokenStream} (hs : s.Past start t)
    (hstart : start.kind = .interpolationStart) (h : t.PassesTo u) (hu : u.Past ending v)
    (hending : ending.kind = .interpolationEnd) : s.PassesTo v := by
  obtain ⟨passed, hpassed, hpaired, ht⟩ := h
  refine ⟨start :: (passed ++ [ending]), ?_, hpaired.interpolation hstart hending, ?_⟩
  · rw [List.forall_mem_cons, List.forall_mem_append, List.forall_mem_singleton, hstart, hending]
    exact ⟨rfl, hpassed, rfl⟩
  · rw [hs.2, ht, hu.2, List.cons_append, List.append_assoc, List.singleton_append]

end TokenStream

abbrev IfRead {σ α : Type} (reader : EStateM SyntaxError σ α) (s : σ) (P : α → σ → Prop) : Prop :=
  Gives (fun _ => True) reader s P

theorem Gives.ifRead {σ α : Type} {E : SyntaxError → Prop} {reader : EStateM SyntaxError σ α}
    {s : σ} {P : α → σ → Prop} (h : Gives E reader s P) : IfRead reader s P :=
  ComesTo.mono h (fun _ _ => trivial) fun _ hresult => hresult

def SyntaxFault.isDuplicate : SyntaxFault → Bool
  | duplicateBlock _ _ => true
  | _ => false

abbrev SyntaxError.IsOrdinary (e : SyntaxError) : Prop :=
  e.fault.isDuplicate = false

namespace TokenReader

variable {α : Type} {s : TokenStream} {Q : α → TokenStream → Prop}

theorem ifRead_fail (s : TokenStream) (fault : SyntaxFault) (line : Nat) :
    IfRead (fail fault line) s Q :=
  .error trivial

theorem ordinary_next (s : TokenStream) : Gives SyntaxError.IsOrdinary next s s.Past :=
  gives_next rfl

theorem ordinary_expect (s : TokenStream) (kind : TokenKind) (value? : Option String) :
    Gives SyntaxError.IsOrdinary (expect kind value?) s fun token t =>
      s.Past token t ∧ token.test kind value? = true :=
  gives_expect rfl rfl

/-- If there is a result, only tokens inside a tag have been passed over, with all ends of the
interpolations among them. If there is none, the error is not about the names of blocks. -/
def StaysInside (reader : TokenReader α) : Prop :=
  ∀ s, Gives SyntaxError.IsOrdinary reader s fun _ t => s.PassesTo t

namespace StaysInside

variable {β : Type}

theorem pure (a : α) : StaysInside (Pure.pure a : TokenReader α) :=
  fun s => .pure (.refl s)

theorem fail {fault : SyntaxFault} (hfault : fault.isDuplicate = false) (line : Nat) :
    StaysInside (TokenReader.fail fault line : TokenReader α) :=
  fun _ => .error hfault

theorem bind {reader : TokenReader α} {f : α → TokenReader β} (h : StaysInside reader)
    (hf : ∀ a, StaysInside (f a)) : StaysInside (reader >>= f) := by
  intro s
  apply (h s).bind
  intro a t hst
  apply (hf a t).mono
  intro _ u htu
  exact hst.trans htu

theorem current_bind {f : Token → TokenReader α}
    (hf : ∀ s, Gives SyntaxError.IsOrdinary (f s.current) s fun _ t => s.PassesTo t) :
    StaysInside (TokenReader.current >>= f) :=
  fun s => gives_current (hf s)

theorem test_bind {kind : TokenKind} {value? : Option String} {f : Bool → TokenReader α}
    (hf : ∀ s, Gives SyntaxError.IsOrdinary (f (s.current.test kind value?)) s
      fun _ t => s.PassesTo t) :
    StaysInside (TokenReader.test kind value? >>= f) :=
  hf

theorem expect {kind : TokenKind} (hkind : kind.isWord = true) (value? : Option String) :
    StaysInside (TokenReader.expect kind value?) := by
  intro s
  apply (ordinary_expect _ _ _).mono
  rintro token t ⟨htoken, htest⟩
  exact htoken.passesTo (Token.kind_of_test htest ▸ hkind)

theorem nextIf {kind : TokenKind} (hkind : kind.isWord = true) (value? : Option String) :
    StaysInside (TokenReader.nextIf kind value?) := by
  intro s
  apply (gives_nextIf s kind value?).mono
  rintro (_ | token) t h
  · rw [h.1]
    exact .refl s
  · exact h.1.passesTo (Token.kind_of_test h.2 ▸ hkind)

/-- A token inside a tag is taken before the rest is read. -/
theorem next_bind {s : TokenStream} (hs : s.current.kind.isWord = true)
    {f : Token → TokenReader α} (hf : ∀ token, StaysInside (f token)) :
    Gives SyntaxError.IsOrdinary (TokenReader.next >>= f) s fun _ t => s.PassesTo t := by
  apply (ordinary_next _).bind
  intro token t htaken
  have htoken : token.kind.isWord = true := htaken.1 ▸ hs
  apply (hf token t).mono
  intro _ u htu
  exact (htaken.passesTo htoken).trans htu

end StaysInside

end TokenReader

namespace Expr

open TokenReader

structure AllStayInside (k : Nat) : Prop where
  readFrom (minimum : Nat) : StaysInside (readFrom k minimum)
  readTail (minimum : Nat) (left : Expr) : StaysInside (readTail k minimum left)
  readOperand : StaysInside (readOperand k)
  readPrimary : StaysInside (readPrimary k)
  readParts (plainMayFollow : Bool) : StaysInside (readParts k plainMayFollow)
  readItems (isFirst : Bool) : StaysInside (readItems k isFirst)
  readArguments (isFirst : Bool) : StaysInside (readArguments k isFirst)
  readPostfix (object : Expr) : StaysInside (readPostfix k object)

variable {k : Nat}

theorem readFrom_staysInside (h : AllStayInside k) (minimum : Nat) :
    StaysInside (readFrom (k + 1) minimum) := by
  rw [readFrom, Grammar.expression]
  exact h.readOperand.bind fun left => h.readTail minimum left

theorem readTail_staysInside (h : AllStayInside k) (minimum : Nat) (left : Expr) :
    StaysInside (readTail (k + 1) minimum left) := by
  rw [readTail, Grammar.operators]
  apply StaysInside.current_bind
  intro s
  split
  · exact StaysInside.pure left s
  · next op hop =>
    split
    · exact StaysInside.pure left s
    · apply StaysInside.next_bind (by rw [kind_of_binaryOp? hop]; rfl)
      intro _
      exact (h.readFrom op.rightMinimum).bind fun right => h.readTail minimum _

theorem readOperand_staysInside (h : AllStayInside k) : StaysInside (readOperand (k + 1)) := by
  rw [readOperand, Grammar.operand]
  apply StaysInside.current_bind
  intro s
  split
  · next op hop =>
    apply StaysInside.next_bind (by rw [kind_of_unaryOp? hop]; rfl)
    intro _
    exact (h.readFrom op.precedence).bind fun operand => .pure _
  · exact h.readPrimary.bind (fun primary => h.readPostfix primary) s

theorem readPrimary_staysInside (h : AllStayInside k) : StaysInside (readPrimary (k + 1)) := by
  rw [readPrimary, Grammar.primary]
  apply StaysInside.current_bind
  intro s
  split
  · next hkind =>
    apply StaysInside.next_bind (by rw [hkind]; rfl)
    exact fun _ => .pure _
  · next hkind =>
    unfold readNumber
    apply StaysInside.next_bind (by rw [hkind]; rfl)
    intro token
    split
    · exact .pure _
    · exact .fail rfl _
  · exact (h.readParts true).bind (fun parts => .pure _) s
  · exact (h.readParts true).bind (fun parts => .pure _) s
  · split
    · next hmark =>
      apply StaysInside.next_bind (by rw [kind_of_isMark hmark]; rfl)
      intro _
      apply (h.readFrom 0).bind
      intro inner
      exact (StaysInside.expect rfl _).bind fun _ => .pure inner
    split
    · next hmark =>
      apply StaysInside.next_bind (by rw [kind_of_isMark hmark]; rfl)
      intro _
      apply (h.readItems true).bind
      intro items
      exact (StaysInside.expect rfl _).bind fun _ => .pure _
    · exact StaysInside.fail rfl _ s

theorem readParts_staysInside (h : AllStayInside k) (plainMayFollow : Bool) :
    StaysInside (readParts (k + 1) plainMayFollow) := by
  have hinterpolation : StaysInside (readParts (k + 1) false) := by
    rw [readParts, Grammar.parts]
    intro s
    apply (gives_nextIf s .interpolationStart none).bind
    rintro (_ | start) t ht
    · rw [ht.1]
      exact StaysInside.pure [] s
    · apply (h.readFrom 0 t).bind
      intro inner u htu
      apply (ordinary_expect _ _ _).bind
      rintro ending v ⟨hv, hending⟩
      have hsv : s.PassesTo v :=
        .interpolation ht.1 (Token.kind_of_test ht.2) htu hv (Token.kind_of_test hending)
      have hrest : StaysInside (do
          let parts ← readParts k true
          return inner :: parts) :=
        (h.readParts true).bind fun parts => .pure _
      exact (hrest v).mono fun _ _ hvw => hsv.trans hvw
  cases plainMayFollow with
  | false => exact hinterpolation
  | true =>
    rw [readParts, Grammar.parts] at hinterpolation ⊢
    apply (StaysInside.nextIf rfl none).bind
    rintro (_ | token)
    · exact hinterpolation
    · exact (h.readParts false).bind fun parts => .pure _

theorem readItems_staysInside (h : AllStayInside k) (isFirst : Bool) :
    StaysInside (readItems (k + 1) isFirst) := by
  rw [readItems, Grammar.items]
  have hitem : StaysInside (do
      if ← test .punctuation (some "]") then return []
      else
        let item ← readFrom k 0
        let items ← readItems k false
        return item :: items) := by
    apply StaysInside.test_bind
    intro s
    split
    · exact StaysInside.pure [] s
    · have hrest : StaysInside (do
          let item ← readFrom k 0
          let items ← readItems k false
          return item :: items) :=
        (h.readFrom 0).bind fun item => (h.readItems false).bind fun items => .pure _
      exact hrest s
  apply StaysInside.test_bind
  intro s
  split
  · exact StaysInside.pure [] s
  · cases isFirst with
    | true => exact hitem s
    | false => exact (StaysInside.expect rfl _).bind (fun _ => hitem) s

theorem readArguments_staysInside (h : AllStayInside k) (isFirst : Bool) :
    StaysInside (readArguments (k + 1) isFirst) := by
  rw [readArguments, Grammar.arguments]
  have hargument : StaysInside (do
      let arg ← readFrom k 0
      let args ← readArguments k false
      return arg :: args) := by
    apply (h.readFrom 0).bind
    intro arg
    exact (h.readArguments false).bind fun args => .pure _
  apply StaysInside.test_bind
  intro s
  split
  · exact StaysInside.pure [] s
  · cases isFirst with
    | true => exact hargument s
    | false => exact (StaysInside.expect rfl _).bind (fun _ => hargument) s

theorem readMember_staysInside : StaysInside readMember := by
  unfold readMember
  apply StaysInside.current_bind
  intro s
  split
  · next hkind =>
    have hword : s.current.kind.isWord = true := by
      rcases hkind with hkind | hkind <;> rw [hkind] <;> rfl
    exact StaysInside.next_bind hword fun _ => .pure _
  · exact StaysInside.fail rfl _ s

theorem readPostfix_staysInside (h : AllStayInside k) (object : Expr) :
    StaysInside (readPostfix (k + 1) object) := by
  rw [readPostfix, Grammar.accesses]
  apply StaysInside.current_bind
  intro s
  split
  · next hmark =>
    apply StaysInside.next_bind (by rw [kind_of_isMark hmark]; rfl)
    intro _
    exact readMember_staysInside.bind fun member => h.readPostfix _
  split
  · next hmark =>
    apply StaysInside.next_bind (by rw [kind_of_isMark hmark]; rfl)
    intro _
    apply (h.readFrom 0).bind
    intro index
    exact (StaysInside.expect rfl _).bind fun _ => h.readPostfix _
  split
  · next hmark =>
    apply StaysInside.next_bind (by rw [kind_of_isMark hmark]; rfl)
    intro _
    apply (StaysInside.expect rfl none).bind
    intro name
    apply StaysInside.test_bind
    intro s
    split
    · next htest =>
      apply StaysInside.next_bind (by rw [Token.kind_of_test htest]; rfl)
      intro _
      apply (h.readArguments true).bind
      intro args
      exact (StaysInside.expect rfl _).bind fun _ => h.readPostfix _
    · exact h.readPostfix _ s
  · exact StaysInside.pure object s

theorem stop_staysInside {α : Type} : StaysInside (stop : TokenReader α) := by
  unfold stop
  apply StaysInside.current_bind
  exact fun s => StaysInside.fail rfl _ s

theorem allStayInside (k : Nat) : AllStayInside k := by
  induction k with
  | zero =>
    exact
      { readFrom := fun _ => by rw [readFrom]; exact stop_staysInside
        readTail := fun _ _ => by rw [readTail]; exact stop_staysInside
        readOperand := by rw [readOperand]; exact stop_staysInside
        readPrimary := by rw [readPrimary]; exact stop_staysInside
        readParts := fun _ => by rw [readParts]; exact stop_staysInside
        readItems := fun _ => by rw [readItems]; exact stop_staysInside
        readArguments := fun _ => by rw [readArguments]; exact stop_staysInside
        readPostfix := fun _ => by rw [readPostfix]; exact stop_staysInside }
  | succ k ih =>
    exact
      { readFrom := readFrom_staysInside ih
        readTail := readTail_staysInside ih
        readOperand := readOperand_staysInside ih
        readPrimary := readPrimary_staysInside ih
        readParts := readParts_staysInside ih
        readItems := readItems_staysInside ih
        readArguments := readArguments_staysInside ih
        readPostfix := readPostfix_staysInside ih }

/-- Reading an expression stays inside the tag. -/
theorem read_staysInside : StaysInside read := by
  intro s
  unfold read
  apply Gives.get_bind
  exact (allStayInside (stepLimit s.after.length)).readFrom 0 s

end Expr

end TemplateEngine
