import TemplateEngine.Expr.Parser
import TemplateEngine.Proofs.Tokens

/-!
Reading goes forward. Main statement: the tokens in front of an expression stay in front of the
place where reading it ends, and no error on the way is about the branches of a choice.
-/

namespace TemplateEngine

def SyntaxFault.isStray : SyntaxFault → Bool
  | strayIfTag _ _ => true
  | _ => false

abbrev SyntaxError.IsRegular (e : SyntaxError) : Prop :=
  e.fault.isStray = false

theorem SyntaxError.IsRegular.ne_strayIfTag {e : SyntaxError} (h : e.IsRegular) (name : String)
    (opened : Nat) : e.fault ≠ .strayIfTag name opened := by
  intro hfault
  rw [SyntaxError.IsRegular, hfault] at h
  cases h

namespace TokenStream

variable {s t u : TokenStream}

/-- The tokens in front of one place are in front of the other one too. -/
def Reaches (s t : TokenStream) : Prop :=
  s.before <:+ t.before

theorem Reaches.refl (s : TokenStream) : s.Reaches s :=
  List.suffix_refl _

theorem Reaches.trans (h : s.Reaches t) (h' : t.Reaches u) : s.Reaches u :=
  List.IsSuffix.trans h h'

theorem Reaches.position_le (h : s.Reaches t) : s.position ≤ t.position :=
  h.length_le

structure Passed (s : TokenStream) (token : Token) (t : TokenStream) : Prop where
  token_eq : token = s.current
  before_eq : t.before = token :: s.before

theorem passed_moved (s : TokenStream) (token : Token) (rest : List Token) :
    s.Passed s.current (s.moved token rest) :=
  ⟨rfl, rfl⟩

theorem Passed.reaches {token : Token} (h : s.Passed token t) : s.Reaches t := by
  rw [Reaches, h.before_eq]
  exact List.suffix_cons token s.before

end TokenStream

namespace TokenReader

variable {α β : Type}

abbrev Forward (reader : TokenReader α) : Prop :=
  ∀ s, Gives SyntaxError.IsRegular reader s fun _ t => s.Reaches t

theorem next_passed (s : TokenStream) : Gives SyntaxError.IsRegular next s s.Passed := by
  cases hafter : s.after with
  | nil => exact .of_outcome (outcome_next_of_last hafter) (.error rfl)
  | cons token rest => exact .of_outcome (outcome_next hafter) (.ok (s.passed_moved token rest))

theorem expect_passed (s : TokenStream) (kind : TokenKind) (value? : Option String) :
    Gives SyntaxError.IsRegular (expect kind value?) s fun token t =>
      s.Passed token t ∧ token.kind = kind := by
  cases htest : s.current.test kind value? with
  | false => exact .of_outcome (outcome_expect_of_test htest) (.error rfl)
  | true =>
    unfold expect
    apply gives_current
    rw [if_pos htest]
    apply (next_passed s).mono
    intro token t h
    exact ⟨h, h.token_eq ▸ Token.kind_of_test htest⟩

theorem nextIf_passed (s : TokenStream) (kind : TokenKind) (value? : Option String) :
    Gives SyntaxError.IsRegular (nextIf kind value?) s fun token? t =>
      match token? with
      | some token => s.Passed token t ∧ token.kind = kind
      | none => t = s := by
  cases htest : s.current.test kind value? with
  | false => exact .of_outcome (outcome_nextIf_of_test htest) (.ok rfl)
  | true =>
    cases hafter : s.after with
    | nil => exact .of_outcome (outcome_nextIf_of_last hafter kind value?) (.ok rfl)
    | cons token rest =>
      have hsome : outcome (nextIf kind value?) s = .ok (some s.current, s.moved token rest) := by
        rw [outcome_nextIf hafter, htest]
        rfl
      exact .of_outcome hsome (.ok ⟨s.passed_moved token rest, Token.kind_of_test htest⟩)

namespace Forward

theorem pure (a : α) : Forward (Pure.pure a : TokenReader α) :=
  fun s => .pure (.refl s)

theorem fail {fault : SyntaxFault} (hfault : fault.isStray = false) (line : Nat) :
    Forward (TokenReader.fail fault line : TokenReader α) :=
  fun _ => .error hfault

theorem bind {reader : TokenReader α} {f : α → TokenReader β} (h : Forward reader)
    (hf : ∀ a, Forward (f a)) : Forward (reader >>= f) := by
  intro s
  apply (h s).bind
  intro a t hst
  apply (hf a t).mono
  intro _ u htu
  exact hst.trans htu

theorem current : Forward TokenReader.current :=
  fun s => .ok (.refl s)

theorem test (kind : TokenKind) (value? : Option String) :
    Forward (TokenReader.test kind value?) :=
  fun s => .ok (.refl s)

theorem next : Forward TokenReader.next :=
  fun s => (next_passed s).mono fun _ _ h => h.reaches

theorem expect (kind : TokenKind) (value? : Option String) :
    Forward (TokenReader.expect kind value?) :=
  fun s => (expect_passed s kind value?).mono fun _ _ h => h.1.reaches

theorem nextIf (kind : TokenKind) (value? : Option String) :
    Forward (TokenReader.nextIf kind value?) := by
  intro s
  apply (nextIf_passed s kind value?).mono
  rintro (_ | token) t h
  · rw [h]
    exact .refl s
  · exact h.1.reaches

end Forward

end TokenReader

namespace Expr

open TokenReader

structure AllForward (k : Nat) : Prop where
  readFrom (minimum : Nat) : Forward (readFrom k minimum)
  readTail (minimum : Nat) (left : Expr) : Forward (readTail k minimum left)
  readOperand : Forward (readOperand k)
  readPrimary : Forward (readPrimary k)
  readParts (plainMayFollow : Bool) : Forward (readParts k plainMayFollow)
  readItems (isFirst : Bool) : Forward (readItems k isFirst)
  readArguments (isFirst : Bool) : Forward (readArguments k isFirst)
  readPostfix (object : Expr) : Forward (readPostfix k object)

variable {k : Nat}

theorem readFrom_forward (h : AllForward k) (minimum : Nat) :
    Forward (readFrom (k + 1) minimum) := by
  rw [readFrom, Grammar.expression]
  exact h.readOperand.bind fun left => h.readTail minimum left

theorem readTail_forward (h : AllForward k) (minimum : Nat) (left : Expr) :
    Forward (readTail (k + 1) minimum left) := by
  rw [readTail, Grammar.operators]
  apply Forward.current.bind
  intro token
  split
  · exact .pure left
  · next op _ =>
    split
    · exact .pure left
    · apply Forward.next.bind
      intro _
      exact (h.readFrom op.rightMinimum).bind fun right => h.readTail minimum _

theorem readOperand_forward (h : AllForward k) : Forward (readOperand (k + 1)) := by
  rw [readOperand, Grammar.operand]
  apply Forward.current.bind
  intro token
  split
  · next op _ =>
    apply Forward.next.bind
    intro _
    exact (h.readFrom op.precedence).bind fun operand => .pure _
  · exact h.readPrimary.bind fun primary => h.readPostfix primary

theorem readNumber_forward : Forward readNumber := by
  unfold readNumber
  apply Forward.next.bind
  intro token
  split
  · exact .pure _
  · exact .fail rfl _

theorem readPrimary_forward (h : AllForward k) : Forward (readPrimary (k + 1)) := by
  rw [readPrimary, Grammar.primary]
  apply Forward.current.bind
  intro token
  split
  · exact Forward.next.bind fun _ => .pure _
  · exact readNumber_forward
  · exact (h.readParts true).bind fun parts => .pure _
  · exact (h.readParts true).bind fun parts => .pure _
  · split
    · apply Forward.next.bind
      intro _
      apply (h.readFrom 0).bind
      intro inner
      exact (Forward.expect _ _).bind fun _ => .pure inner
    split
    · apply Forward.next.bind
      intro _
      apply (h.readItems true).bind
      intro items
      exact (Forward.expect _ _).bind fun _ => .pure _
    · exact .fail rfl _

theorem readParts_forward (h : AllForward k) (plainMayFollow : Bool) :
    Forward (readParts (k + 1) plainMayFollow) := by
  have hinterpolation : Forward (readParts (k + 1) false) := by
    rw [readParts, Grammar.parts]
    apply (Forward.nextIf _ _).bind
    rintro (_ | start)
    · exact .pure []
    · apply (h.readFrom 0).bind
      intro inner
      apply (Forward.expect _ _).bind
      intro _
      exact (h.readParts true).bind fun parts => .pure _
  cases plainMayFollow with
  | false => exact hinterpolation
  | true =>
    rw [readParts, Grammar.parts] at hinterpolation ⊢
    apply (Forward.nextIf .string none).bind
    rintro (_ | token)
    · exact hinterpolation
    · exact (h.readParts false).bind fun parts => .pure _

theorem readItems_forward (h : AllForward k) (isFirst : Bool) :
    Forward (readItems (k + 1) isFirst) := by
  rw [readItems, Grammar.items]
  have hitem : Forward (do
      if ← test .punctuation (some "]") then return []
      else
        let item ← readFrom k 0
        let items ← readItems k false
        return item :: items) := by
    apply (Forward.test _ _).bind
    intro found
    split
    · exact .pure []
    · exact (h.readFrom 0).bind fun item => (h.readItems false).bind fun items => .pure _
  apply (Forward.test _ _).bind
  intro found
  split
  · exact .pure []
  · cases isFirst with
    | true => exact hitem
    | false => exact (Forward.expect _ _).bind fun _ => hitem

theorem readArguments_forward (h : AllForward k) (isFirst : Bool) :
    Forward (readArguments (k + 1) isFirst) := by
  rw [readArguments, Grammar.arguments]
  have hargument : Forward (do
      let arg ← readFrom k 0
      let args ← readArguments k false
      return arg :: args) :=
    (h.readFrom 0).bind fun arg => (h.readArguments false).bind fun args => .pure _
  apply (Forward.test _ _).bind
  intro found
  split
  · exact .pure []
  · cases isFirst with
    | true => exact hargument
    | false => exact (Forward.expect _ _).bind fun _ => hargument

theorem readMember_forward : Forward readMember := by
  unfold readMember
  apply Forward.current.bind
  intro token
  split
  · exact Forward.next.bind fun _ => .pure _
  · exact .fail rfl _

theorem readPostfix_forward (h : AllForward k) (object : Expr) :
    Forward (readPostfix (k + 1) object) := by
  rw [readPostfix, Grammar.accesses]
  apply Forward.current.bind
  intro token
  split
  · apply Forward.next.bind
    intro _
    exact readMember_forward.bind fun member => h.readPostfix _
  split
  · apply Forward.next.bind
    intro _
    apply (h.readFrom 0).bind
    intro index
    exact (Forward.expect _ _).bind fun _ => h.readPostfix _
  split
  · apply Forward.next.bind
    intro _
    apply (Forward.expect _ _).bind
    intro name
    apply (Forward.test _ _).bind
    intro found
    split
    · apply Forward.next.bind
      intro _
      apply (h.readArguments true).bind
      intro args
      exact (Forward.expect _ _).bind fun _ => h.readPostfix _
    · exact h.readPostfix _
  · exact .pure object

theorem stop_forward {α : Type} : Forward (stop : TokenReader α) := by
  unfold stop
  exact Forward.current.bind fun _ => .fail rfl _

theorem allForward (k : Nat) : AllForward k := by
  induction k with
  | zero =>
    exact
      { readFrom := fun _ => by rw [readFrom]; exact stop_forward
        readTail := fun _ _ => by rw [readTail]; exact stop_forward
        readOperand := by rw [readOperand]; exact stop_forward
        readPrimary := by rw [readPrimary]; exact stop_forward
        readParts := fun _ => by rw [readParts]; exact stop_forward
        readItems := fun _ => by rw [readItems]; exact stop_forward
        readArguments := fun _ => by rw [readArguments]; exact stop_forward
        readPostfix := fun _ => by rw [readPostfix]; exact stop_forward }
  | succ k ih =>
    exact
      { readFrom := readFrom_forward ih
        readTail := readTail_forward ih
        readOperand := readOperand_forward ih
        readPrimary := readPrimary_forward ih
        readParts := readParts_forward ih
        readItems := readItems_forward ih
        readArguments := readArguments_forward ih
        readPostfix := readPostfix_forward ih }

/-- Reading an expression goes forward. -/
theorem read_forward : Forward read := by
  intro s
  unfold read
  apply Gives.get_bind
  exact (allForward (stepLimit s.after.length)).readFrom 0 s

end Expr

end TemplateEngine
