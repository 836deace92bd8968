import TemplateEngine.Expr.Parser
import TemplateEngine.Proofs.Tokens

/-!
Reading an expression inside a tag depends on the tokens up to the end of the tag only. Main
statement: from two streams with the same tokens up to there, with enough steps, a read gives the
same expression or the same error, and leaves streams that again have the same tokens up to there.
-/

namespace TemplateEngine

structure Linked (R : List Token → List Token → Prop) (n : Nat) (s t : TokenStream) : Prop where
  source : s.source = t.source
  ahead : ∃ inside ending left right, inside.length ≤ n ∧ (∀ x ∈ inside, x.kind.isInner = true) ∧
    ending.kind.EndsTag ∧ R left right ∧ s.ahead = inside ++ ending :: left ∧
      t.ahead = inside ++ ending :: right

def Same {σ α : Type} (P : σ → σ → Prop) (a b : α × σ) : Prop :=
  a.1 = b.1 ∧ P a.2 b.2

section

variable {ε σ α β γ δ : Type} {P : σ → σ → Prop}

theorem agree_pure {s t : σ} (a : α) (h : P s t) :
    Agree (Same P) (outcome (pure a : EStateM ε σ α) s) (outcome (pure a : EStateM ε σ α) t) :=
  .ok ⟨rfl, h⟩

theorem agree_bind_of {S : α × σ → β × σ → Prop} {Q : γ × σ → δ × σ → Prop} {f : EStateM ε σ α}
    {g : EStateM ε σ β} {F : α → EStateM ε σ γ} {G : β → EStateM ε σ δ} {s t : σ}
    (h : Agree S (outcome f s) (outcome g t))
    (hrest : ∀ a b s t, S (a, s) (b, t) → Agree Q (outcome (F a) s) (outcome (G b) t)) :
    Agree Q (outcome (f >>= F) s) (outcome (g >>= G) t) := by
  rw [outcome_bind, outcome_bind]
  exact h.bind fun a b hab => hrest a.1 b.1 a.2 b.2 hab

theorem agree_bind {Q : β × σ → γ × σ → Prop} {f g : EStateM ε σ α} {F : α → EStateM ε σ β}
    {G : α → EStateM ε σ γ} {s t : σ} (h : Agree (Same P) (outcome f s) (outcome g t))
    (hrest : ∀ a s t, P s t → Agree Q (outcome (F a) s) (outcome (G a) t)) :
    Agree Q (outcome (f >>= F) s) (outcome (g >>= G) t) := by
  apply agree_bind_of h
  intro a b s t hab
  obtain ⟨hresult, hstates⟩ := hab
  obtain rfl : a = b := hresult
  exact hrest a s t hstates

end

namespace Linked

open TokenReader

variable {R : List Token → List Token → Prop} {m n : Nat} {s t : TokenStream} {α β : Type}

theorem mono (h : Linked R m s t) (hmn : m ≤ n) : Linked R n s t := by
  obtain ⟨hsource, inside, ending, left, right, hlength, hrest⟩ := h
  exact ⟨hsource, inside, ending, left, right, by omega, hrest⟩

/-- Only the tokens ahead and the names of the templates count. -/
theorem congr {u v : TokenStream} (h : Linked R n s t) (hu : u.ahead = s.ahead)
    (hv : v.ahead = t.ahead) (husource : u.source = s.source) (hvsource : v.source = t.source) :
    Linked R n u v := by
  obtain ⟨hsource, inside, ending, left, right, hrest⟩ := h
  rw [← hu, ← hv] at hrest
  exact ⟨by rw [husource, hvsource, hsource], inside, ending, left, right, hrest⟩

theorem current_eq (h : Linked R n s t) : t.current = s.current := by
  obtain ⟨-, inside, ending, left, right, -, -, -, -, hs, ht⟩ := h
  cases inside with
  | nil => rw [(List.cons.inj hs).1, (List.cons.inj ht).1]
  | cons x inside => rw [(List.cons.inj hs).1, (List.cons.inj ht).1]

/-- A token inside the tag has one behind it in both streams, which again agree up to the end. -/
theorem move (h : Linked R n s t) (hin : s.current.kind.isInner = true) :
    0 < n ∧ ∃ token left right, s.after = token :: left ∧ t.after = token :: right ∧
      Linked R (n - 1) (s.moved token left) (t.moved token right) := by
  obtain ⟨hsource, inside, ending, left, right, hlength, hinner, hend, hR, hs, ht⟩ := h
  cases inside with
  | nil =>
    obtain ⟨hcurrent, -⟩ := List.cons.inj hs
    rw [hcurrent] at hin
    rcases hend with hend | hend <;> simp [hend, TokenKind.isInner] at hin
  | cons x inside =>
    have hs := (List.cons.inj hs).2
    have ht := (List.cons.inj ht).2
    have hinner : ∀ y ∈ inside, y.kind.isInner = true := fun y hy =>
      hinner y (List.mem_cons_of_mem _ hy)
    rw [List.length_cons] at hlength
    refine ⟨by omega, ?_⟩
    cases inside with
    | nil =>
      exact ⟨ending, left, right, hs, ht, hsource, [], ending, left, right, by simp, hinner, hend,
        hR, rfl, rfl⟩
    | cons y inside =>
      exact ⟨y, _, _, hs, ht, hsource, y :: inside, ending, left, right, by omega, hinner, hend, hR,
        rfl, rfl⟩

/-- A token that is not inside the tag ends it. -/
theorem ending (h : Linked R n s t) (hin : s.current.kind.isInner = false) :
    s.current.kind.EndsTag ∧ R s.after t.after := by
  obtain ⟨-, inside, ending, left, right, -, hinner, hend, hR, hs, ht⟩ := h
  cases inside with
  | nil =>
    obtain ⟨hcurrent, hafter⟩ := List.cons.inj hs
    obtain ⟨-, hafter'⟩ := List.cons.inj ht
    rw [hcurrent, hafter, hafter']
    exact ⟨hend, hR⟩
  | cons x inside =>
    have hx := hinner x (by simp)
    rw [(List.cons.inj hs).1, hx] at hin
    simp at hin

theorem agree_current {Q : α × TokenStream → β × TokenStream → Prop} {F : Token → TokenReader α}
    {G : Token → TokenReader β} (h : Linked R n s t)
    (hrest : Agree Q (outcome (F s.current) s) (outcome (G s.current) t)) :
    Agree Q (outcome (current >>= F) s) (outcome (current >>= G) t) := by
  simp only [outcome_bind, outcome_current, ok_bind, h.current_eq]
  exact hrest

theorem agree_test {Q : α × TokenStream → β × TokenStream → Prop} {kind : TokenKind}
    {value? : Option String} {F : Bool → TokenReader α} {G : Bool → TokenReader β}
    (h : Linked R n s t)
    (hrest : Agree Q (outcome (F (s.current.test kind value?)) s)
      (outcome (G (s.current.test kind value?)) t)) :
    Agree Q (outcome (test kind value? >>= F) s) (outcome (test kind value? >>= G) t) := by
  simp only [outcome_bind, outcome_test, ok_bind, h.current_eq]
  exact hrest

theorem agree_fail {Q : α × TokenStream → β × TokenStream → Prop} (h : Linked R n s t)
    (fault : SyntaxFault) (line : Nat) :
    Agree Q (outcome (fail fault line) s) (outcome (fail fault line) t) := by
  simp only [outcome_fail, TokenStream.error, h.source]
  exact .error _

theorem agree_next (h : Linked R n s t) (hin : s.current.kind.isInner = true) :
    Agree (Same (Linked R (n - 1))) (outcome next s) (outcome next t) := by
  obtain ⟨-, token, left, right, hs, ht, hmoved⟩ := h.move hin
  rw [outcome_next hs, outcome_next ht, h.current_eq]
  exact .ok ⟨rfl, hmoved⟩

theorem isInner_of_test {token : Token} {kind : TokenKind} {value? : Option String}
    (htest : token.test kind value? = true) (hkind : kind.isInner = true) :
    token.kind.isInner = true := by
  rw [Token.kind_of_test htest]
  exact hkind

/-- A token that is expected inside the tag and found there is not the end of the tag. -/
theorem agree_expect (h : Linked R n s t) {kind : TokenKind} (hkind : kind.isInner = true)
    (value? : Option String) :
    Agree (Same fun s t => 0 < n ∧ Linked R (n - 1) s t) (outcome (expect kind value?) s)
      (outcome (expect kind value?) t) := by
  unfold expect
  refine h.agree_current ?_
  split
  · next htest =>
    have hin := isInner_of_test htest hkind
    exact (h.agree_next hin).mono fun a b hab => ⟨hab.1, (h.move hin).1, hab.2⟩
  · exact h.agree_fail _ _

theorem agree_nextIf {Q : α × TokenStream → β × TokenStream → Prop} {kind : TokenKind}
    {value? : Option String} {F : Option Token → TokenReader α} {G : Option Token → TokenReader β}
    (h : Linked R n s t) (hkind : kind.isInner = true)
    (hsome : ∀ u v, 0 < n → Linked R (n - 1) u v →
      Agree Q (outcome (F (some s.current)) u) (outcome (G (some s.current)) v))
    (hnone : Agree Q (outcome (F none) s) (outcome (G none) t)) :
    Agree Q (outcome (nextIf kind value? >>= F) s) (outcome (nextIf kind value? >>= G) t) := by
  rw [outcome_bind, outcome_bind]
  by_cases htest : s.current.test kind value? = true
  · obtain ⟨hn, token, left, right, hs, ht, hmoved⟩ := h.move (isInner_of_test htest hkind)
    rw [outcome_nextIf hs, outcome_nextIf ht, h.current_eq, htest]
    exact hsome _ _ hn hmoved
  · rw [Bool.not_eq_true] at htest
    rw [outcome_nextIf_of_test htest, outcome_nextIf_of_test (by rw [h.current_eq, htest])]
    exact hnone

end Linked

namespace Expr

open TokenReader

variable {R : List Token → List Token → Prop} {α : Type}

/-- From linked streams of which the tag ends within `n` tokens, both reads fail alike or give the
same result with linked streams, if both have `6 * n + extra` steps. -/
def Settled (R : List Token → List Token → Prop) (steps steps' : Nat) (extra : Nat)
    (f g : TokenReader α) : Prop :=
  ∀ n m s t, Linked R n s t → n ≤ m → 6 * n + extra ≤ steps → 6 * n + extra ≤ steps' →
    Agree (Same (Linked R m)) (outcome f s) (outcome g t)

structure AllSettled (R : List Token → List Token → Prop) (k k' : Nat) : Prop where
  readFrom (minimum : Nat) :
    Settled R k k' 4 (readFrom k minimum) (readFrom k' minimum)
  readTail (minimum : Nat) (left : Expr) :
    Settled R k k' 1 (readTail k minimum left) (readTail k' minimum left)
  readOperand : Settled R k k' 3 (readOperand k) (readOperand k')
  readPrimary : Settled R k k' 2 (readPrimary k) (readPrimary k')
  readParts (plainMayFollow : Bool) :
    Settled R k k' 1 (readParts k plainMayFollow) (readParts k' plainMayFollow)
  readItems (isFirst : Bool) :
    Settled R k k' (if isFirst then 5 else 1) (readItems k isFirst)
      (readItems k' isFirst)
  readArguments (isFirst : Bool) :
    Settled R k k' (if isFirst then 5 else 1) (readArguments k isFirst)
      (readArguments k' isFirst)
  readPostfix (object : Expr) :
    Settled R k k' 1 (readPostfix k object) (readPostfix k' object)

theorem kind_of_binaryOp? {token : Token} {op : BinaryOp} (h : binaryOp? token = some op) :
    token.kind = .operator := by
  unfold binaryOp? at h
  split at h
  · assumption
  · simp at h

theorem kind_of_unaryOp? {token : Token} {op : UnaryOp} (h : unaryOp? token = some op) :
    token.kind = .operator := by
  unfold unaryOp? at h
  split at h
  · assumption
  · simp at h

theorem kind_of_isMark {token : Token} {mark : String} (h : isMark token mark = true) :
    token.kind = .punctuation := by
  unfold isMark at h
  rw [Bool.and_eq_true, beq_iff_eq] at h
  exact h.1

theorem isInner_of_binaryOp? {token : Token} {op : BinaryOp} (h : binaryOp? token = some op) :
    token.kind.isInner = true := by
  rw [kind_of_binaryOp? h]
  rfl

theorem isInner_of_unaryOp? {token : Token} {op : UnaryOp} (h : unaryOp? token = some op) :
    token.kind.isInner = true := by
  rw [kind_of_unaryOp? h]
  rfl

theorem isInner_of_isMark {token : Token} {mark : String} (h : isMark token mark = true) :
    token.kind.isInner = true := by
  rw [kind_of_isMark h]
  rfl

variable {k k' : Nat}

theorem readFrom_settled (h : AllSettled R k k') (minimum : Nat) :
    Settled R (k + 1) (k' + 1) 4 (readFrom (k + 1) minimum)
      (readFrom (k' + 1) minimum) := by
  intro n m s t hst hnm hk hk'
  rw [readFrom, readFrom, Grammar.expression, Grammar.expression]
  apply agree_bind (h.readOperand n n s t hst (by omega) (by omega) (by omega))
  intro left s t hst
  exact h.readTail minimum left n m s t hst hnm (by omega) (by omega)

theorem readTail_settled (h : AllSettled R k k') (minimum : Nat) (left : Expr) :
    Settled R (k + 1) (k' + 1) 1 (readTail (k + 1) minimum left)
      (readTail (k' + 1) minimum left) := by
  intro n m s t hst hnm hk hk'
  rw [readTail, readTail, Grammar.operators, Grammar.operators]
  refine hst.agree_current ?_
  cases hop : binaryOp? s.current with
  | none => exact agree_pure left (hst.mono hnm)
  | some op =>
    have hin := isInner_of_binaryOp? hop
    have hn := (hst.move hin).1
    simp only
    split
    · exact agree_pure left (hst.mono hnm)
    · apply agree_bind (hst.agree_next hin)
      intro _ s t hst
      apply agree_bind
        (h.readFrom op.rightMinimum (n - 1) (n - 1) s t hst (by omega) (by omega) (by omega))
      intro right s t hst
      exact h.readTail minimum _ (n - 1) m s t hst (by omega) (by omega) (by omega)

theorem readOperand_settled (h : AllSettled R k k') :
    Settled R (k + 1) (k' + 1) 3 (readOperand (k + 1))
      (readOperand (k' + 1)) := by
  intro n m s t hst hnm hk hk'
  rw [readOperand, readOperand, Grammar.operand, Grammar.operand]
  refine hst.agree_current ?_
  cases hop : unaryOp? s.current with
  | none =>
    apply agree_bind (h.readPrimary n n s t hst (by omega) (by omega) (by omega))
    intro primary s t hst
    exact h.readPostfix primary n m s t hst hnm (by omega) (by omega)
  | some op =>
    have hin := isInner_of_unaryOp? hop
    have hn := (hst.move hin).1
    apply agree_bind (hst.agree_next hin)
    intro _ s t hst
    apply agree_bind
      (h.readFrom op.precedence (n - 1) (n - 1) s t hst (by omega) (by omega) (by omega))
    intro operand s t hst
    exact agree_pure _ (hst.mono (by omega))

theorem readNumber_agree {n m : Nat} {s t : TokenStream} (hst : Linked R n s t) (hnm : n ≤ m)
    (hin : s.current.kind.isInner = true) :
    Agree (Same (Linked R m)) (outcome readNumber s) (outcome readNumber t) := by
  unfold readNumber
  apply agree_bind (hst.agree_next hin)
  intro token s t hst
  split
  · exact agree_pure _ (hst.mono (by omega))
  · exact hst.agree_fail _ _

theorem readPrimary_settled (h : AllSettled R k k') :
    Settled R (k + 1) (k' + 1) 2 (readPrimary (k + 1))
      (readPrimary (k' + 1)) := by
  intro n m s t hst hnm hk hk'
  rw [readPrimary, readPrimary, Grammar.primary, Grammar.primary]
  refine hst.agree_current ?_
  have hparts : Agree (Same (Linked R m))
      (outcome (readParts k true >>= fun parts => pure (concatAll s.current.line parts)) s)
      (outcome (readParts k' true >>= fun parts => pure (concatAll s.current.line parts)) t) := by
    apply agree_bind (h.readParts true n n s t hst (by omega) (by omega) (by omega))
    intro parts s t hst
    exact agree_pure _ (hst.mono hnm)
  split
  · next hkind =>
    apply agree_bind (hst.agree_next (by rw [hkind]; rfl))
    intro _ s t hst
    exact agree_pure _ (hst.mono (by omega))
  · next hkind => exact readNumber_agree hst hnm (by rw [hkind]; rfl)
  · exact hparts
  · exact hparts
  · split
    · next hmark =>
      have hin := isInner_of_isMark hmark
      have hn := (hst.move hin).1
      apply agree_bind (hst.agree_next hin)
      intro _ s t hst
      apply agree_bind (h.readFrom 0 (n - 1) (n - 1) s t hst (by omega) (by omega) (by omega))
      intro inner s t hst
      apply agree_bind (hst.agree_expect rfl _)
      intro _ s t hst
      exact agree_pure _ (hst.2.mono (by omega))
    · split
      · next hmark =>
        have hin := isInner_of_isMark hmark
        have hn := (hst.move hin).1
        apply agree_bind (hst.agree_next hin)
        intro _ s t hst
        apply agree_bind
          (h.readItems true (n - 1) (n - 1) s t hst (by omega) (by simp only [if_true]; omega)
            (by simp only [if_true]; omega))
        intro items s t hst
        apply agree_bind (hst.agree_expect rfl _)
        intro _ s t hst
        exact agree_pure _ (hst.2.mono (by omega))
      · exact hst.agree_fail _ _

theorem readParts_settled (h : AllSettled R k k') (plainMayFollow : Bool) :
    Settled R (k + 1) (k' + 1) 1 (readParts (k + 1) plainMayFollow)
      (readParts (k' + 1) plainMayFollow) := by
  intro n m s t hst hnm hk hk'
  have hinterpolation : Agree (Same (Linked R m))
      (outcome (readParts (k + 1) false) s) (outcome (readParts (k' + 1) false) t) := by
    rw [readParts, readParts, Grammar.parts, Grammar.parts]
    refine hst.agree_nextIf rfl (fun u v hn huv => ?_) (agree_pure [] (hst.mono hnm))
    apply agree_bind (h.readFrom 0 (n - 1) (n - 1) u v huv (by omega) (by omega) (by omega))
    intro inner u v huv
    apply agree_bind (huv.agree_expect rfl _)
    intro _ u v huv
    apply agree_bind
      (h.readParts true (n - 1 - 1) (n - 1) u v huv.2 (by omega) (by omega) (by omega))
    intro parts u v huv
    exact agree_pure _ (huv.mono (by omega))
  cases plainMayFollow with
  | false => exact hinterpolation
  | true =>
    rw [readParts, readParts, Grammar.parts, Grammar.parts] at hinterpolation ⊢
    refine hst.agree_nextIf rfl (fun u v hn huv => ?_) hinterpolation
    apply agree_bind (h.readParts false (n - 1) (n - 1) u v huv (by omega) (by omega) (by omega))
    intro parts u v huv
    exact agree_pure _ (huv.mono (by omega))

theorem readItems_settled (h : AllSettled R k k') (isFirst : Bool) :
    Settled R (k + 1) (k' + 1) (if isFirst then 5 else 1) (readItems (k + 1) isFirst)
      (readItems (k' + 1) isFirst) := by
  intro n m s t hst hnm hk hk'
  rw [readItems, readItems, Grammar.items, Grammar.items]
  have hitem : ∀ n s t, Linked R n s t → n ≤ m → 6 * n + 4 ≤ k → 6 * n + 4 ≤ k' →
      Agree (Same (Linked R m))
        (outcome (do
          if ← test .punctuation (some "]") then return []
          else
            let item ← readFrom k 0
            let items ← readItems k false
            return item :: items) s)
        (outcome (do
          if ← test .punctuation (some "]") then return []
          else
            let item ← readFrom k' 0
            let items ← readItems k' false
            return item :: items) t) := by
    intro n s t hst hnm hk hk'
    refine hst.agree_test ?_
    split
    · exact agree_pure [] (hst.mono hnm)
    · apply agree_bind (h.readFrom 0 n n s t hst (by omega) (by omega) (by omega))
      intro item s t hst
      apply agree_bind (h.readItems false n m s t hst hnm (by simp; omega) (by simp; omega))
      intro items s t hst
      exact agree_pure _ hst
  refine hst.agree_test ?_
  split
  · exact agree_pure [] (hst.mono hnm)
  · cases isFirst with
    | true =>
      rw [if_pos rfl] at hk hk'
      exact hitem n s t hst hnm (by omega) (by omega)
    | false =>
      rw [if_neg (by simp)] at hk hk'
      apply agree_bind (hst.agree_expect rfl _)
      intro _ s t hst
      exact hitem (n - 1) s t hst.2 (by omega) (by omega) (by omega)

theorem readArguments_settled (h : AllSettled R k k') (isFirst : Bool) :
    Settled R (k + 1) (k' + 1) (if isFirst then 5 else 1) (readArguments (k + 1) isFirst)
      (readArguments (k' + 1) isFirst) := by
  intro n m s t hst hnm hk hk'
  rw [readArguments, readArguments, Grammar.arguments, Grammar.arguments]
  have hargument : ∀ n s t, Linked R n s t → n ≤ m → 6 * n + 4 ≤ k → 6 * n + 4 ≤ k' →
      Agree (Same (Linked R m))
        (outcome (do
          let arg ← readFrom k 0
          let args ← readArguments k false
          return arg :: args) s)
        (outcome (do
          let arg ← readFrom k' 0
          let args ← readArguments k' false
          return arg :: args) t) := by
    intro n s t hst hnm hk hk'
    apply agree_bind (h.readFrom 0 n n s t hst (by omega) (by omega) (by omega))
    intro arg s t hst
    apply agree_bind (h.readArguments false n m s t hst hnm (by simp; omega) (by simp; omega))
    intro args s t hst
    exact agree_pure _ hst
  refine hst.agree_test ?_
  split
  · exact agree_pure [] (hst.mono hnm)
  · cases isFirst with
    | true =>
      rw [if_pos rfl] at hk hk'
      exact hargument n s t hst hnm (by omega) (by omega)
    | false =>
      rw [if_neg (by simp)] at hk hk'
      apply agree_bind (hst.agree_expect rfl _)
      intro _ s t hst
      exact hargument (n - 1) s t hst.2 (by omega) (by omega) (by omega)

theorem readMember_agree {n : Nat} {s t : TokenStream} (hst : Linked R n s t) :
    Agree (Same (Linked R n)) (outcome readMember s) (outcome readMember t) := by
  unfold readMember
  refine hst.agree_current ?_
  split
  · next hkind =>
    have hin : s.current.kind.isInner = true := by
      rcases hkind with hkind | hkind <;> rw [hkind] <;> rfl
    apply agree_bind (hst.agree_next hin)
    intro _ s t hst
    exact agree_pure _ (hst.mono (by omega))
  · exact hst.agree_fail _ _

theorem readPostfix_settled (h : AllSettled R k k') (object : Expr) :
    Settled R (k + 1) (k' + 1) 1 (readPostfix (k + 1) object) (readPostfix (k' + 1) object) := by
  intro n m s t hst hnm hk hk'
  rw [readPostfix, readPostfix, Grammar.accesses, Grammar.accesses]
  refine hst.agree_current ?_
  split
  · next hmark =>
    have hin := isInner_of_isMark hmark
    have hn := (hst.move hin).1
    apply agree_bind (hst.agree_next hin)
    intro _ s t hst
    apply agree_bind (readMember_agree hst)
    intro member s t hst
    exact h.readPostfix _ (n - 1) m s t hst (by omega) (by omega) (by omega)
  · split
    · next hmark =>
      have hin := isInner_of_isMark hmark
      have hn := (hst.move hin).1
      apply agree_bind (hst.agree_next hin)
      intro _ s t hst
      apply agree_bind (h.readFrom 0 (n - 1) (n - 1) s t hst (by omega) (by omega) (by omega))
      intro index s t hst
      apply agree_bind (hst.agree_expect rfl _)
      intro _ s t hst
      exact h.readPostfix _ (n - 1 - 1) m s t hst.2 (by omega) (by omega) (by omega)
    · split
      · next hmark =>
        have hin := isInner_of_isMark hmark
        have hn := (hst.move hin).1
        apply agree_bind (hst.agree_next hin)
        intro _ s t hst
        apply agree_bind (hst.agree_expect rfl _)
        intro name s t hst
        obtain ⟨hn', hst⟩ := hst
        refine hst.agree_test ?_
        split
        · next htest =>
          have hin := Linked.isInner_of_test htest rfl
          have hn'' := (hst.move hin).1
          apply agree_bind (hst.agree_next hin)
          intro _ s t hst
          apply agree_bind
            (h.readArguments true (n - 1 - 1 - 1) (n - 1) s t hst (by omega)
              (by simp only [if_true]; omega) (by simp only [if_true]; omega))
          intro args s t hst
          apply agree_bind (hst.agree_expect rfl _)
          intro _ s t hst
          exact h.readPostfix _ (n - 1 - 1) m s t hst.2 (by omega) (by omega) (by omega)
        · exact h.readPostfix _ (n - 1 - 1) m s t hst (by omega) (by omega) (by omega)
      · exact agree_pure _ (hst.mono hnm)

/-- Without steps there is nothing to show. -/
theorem settled_of_zero {extra : Nat} (f g : TokenReader α) (hextra : 0 < extra)
    (hsteps : k = 0 ∨ k' = 0) : Settled R k k' extra f g := by
  intro n m s t _ _ hk hk'
  omega

theorem allSettled_of_zero (hsteps : k = 0 ∨ k' = 0) : AllSettled R k k' where
  readFrom _ := settled_of_zero _ _ (by omega) hsteps
  readTail _ _ := settled_of_zero _ _ (by omega) hsteps
  readOperand := settled_of_zero _ _ (by omega) hsteps
  readPrimary := settled_of_zero _ _ (by omega) hsteps
  readParts _ := settled_of_zero _ _ (by omega) hsteps
  readItems isFirst := settled_of_zero _ _ (by split <;> omega) hsteps
  readArguments isFirst := settled_of_zero _ _ (by split <;> omega) hsteps
  readPostfix _ := settled_of_zero _ _ (by omega) hsteps

theorem allSettled (R : List Token → List Token → Prop) (k k' : Nat) : AllSettled R k k' := by
  induction k generalizing k' with
  | zero => exact allSettled_of_zero (.inl rfl)
  | succ k ih =>
    cases k' with
    | zero => exact allSettled_of_zero (.inr rfl)
    | succ k' =>
      have h := ih k'
      exact
        { readFrom := readFrom_settled h
          readTail := readTail_settled h
          readOperand := readOperand_settled h
          readPrimary := readPrimary_settled h
          readParts := readParts_settled h
          readItems := readItems_settled h
          readArguments := readArguments_settled h
          readPostfix := readPostfix_settled h }

/-- Reading an expression inside a tag does not depend on what follows the tag. -/
theorem read_agree {n : Nat} {s t : TokenStream} (h : Linked R n s t) :
    Agree (Same (Linked R n)) (outcome read s) (outcome read t) := by
  obtain ⟨hsource, inside, ending, left, right, hn, hrest⟩ := h
  have hst : Linked R inside.length s t :=
    ⟨hsource, inside, ending, left, right, Nat.le_refl _, hrest⟩
  obtain ⟨-, -, -, hs, ht⟩ := hrest
  have hs := congrArg List.length hs
  have ht := congrArg List.length ht
  simp only [TokenStream.ahead, List.length_cons, List.length_append] at hs ht
  unfold read
  simp only [outcome_bind, outcome_get, ok_bind]
  apply (allSettled R _ _).readFrom 0 inside.length n s t hst hn
  · unfold stepLimit
    omega
  · unfold stepLimit
    omega

end Expr

end TemplateEngine
