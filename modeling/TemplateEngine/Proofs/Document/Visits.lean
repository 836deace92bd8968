import TemplateEngine.Proofs.Document.Trails

/-!
The visits of a parser. Main statement: every token list is read with at most seven visits for each
token and one more, and no routine is entered from inside itself unless a token has been taken
since; the step limits never run out, so that more steps change nothing.
-/

namespace TemplateEngine.Document.TracedParser

open TokenReader

variable {s t : TracedParser} {α β : Type}

def beginsPart (plainMayFollow : Bool) (token : Token) : Bool :=
  plainMayFollow && token.kind == .string || token.kind == .interpolationStart

structure AllAfford (k : Nat) : Prop where
  readFrom (minimum : Nat) : Affords 6 .expression k 4 1 6 fun trail => readFrom k trail minimum
  readTail (minimum : Nat) (left : Expr) :
    Affords 6 .operators k 1 0 1 fun trail => readTail k trail minimum left
  readOperand : Affords 6 .operand k 3 1 4 fun trail => readOperand k trail
  readPrimary : Affords 6 .primary k 2 1 2 fun trail => readPrimary k trail
  readParts (plainMayFollow : Bool) {s : TracedParser} {trail : List Visit} (hs : s.Sound)
      (htrail : Descends (⟨.parts, s.place⟩ :: trail)) (hk : 6 * s.left + 1 ≤ k) :
    LeadsOn s (if beginsPart plainMayFollow s.parser.stream.current then 1 else 0) 1
      (readParts k trail plainMayFollow) s
  readItems (isFirst : Bool) :
    Affords 6 .items k (if isFirst then 5 else 1) 0 (if isFirst then 8 else 1)
      fun trail => readItems k trail isFirst
  readArguments (isFirst : Bool) :
    Affords 6 .arguments k (if isFirst then 5 else 1) 0 (if isFirst then 8 else 1)
      fun trail => readArguments k trail isFirst
  readPostfix (object : Expr) :
    Affords 6 .accesses k 1 0 1 fun trail => readPostfix k trail object

variable {k : Nat}

theorem readFrom_affords (h : AllAfford k) (minimum : Nat) :
    Affords 6 .expression (k + 1) 4 1 6 fun trail => readFrom (k + 1) trail minimum := by
  intro s trail hs htrail hk
  simp only [readFrom, Grammar.expression]
  apply LeadsOn.enter_bind hs htrail
  intro t _ ht
  have hleft := ht.left
  apply h.readOperand.bind ht (ht.inside htrail (by decide)) (by omega) (by omega)
  intro left u hu
  have hleft := hu.left
  exact (h.readTail minimum left).last hu (hu.behind htrail (by omega)) (by omega) (by omega)
    (by omega)

theorem readTail_affords (h : AllAfford k) (minimum : Nat) (left : Expr) :
    Affords 6 .operators (k + 1) 1 0 1 fun trail => readTail (k + 1) trail minimum left := by
  intro s trail hs htrail hk
  simp only [readTail, Grammar.operators]
  apply LeadsOn.enter_bind hs htrail
  intro t _ ht
  apply LeadsOn.current_bind
  split
  · exact .pure ht
  · next op _ =>
    split
    · exact .pure ht
    · apply LeadsOn.next_bind ht (by omega)
      intro _ u hu
      have hleft := hu.left
      apply (h.readFrom op.rightMinimum).bind hu (hu.behind htrail (by omega)) (by omega) (by omega)
      intro right v hv
      have hleft := hv.left
      exact (h.readTail minimum _).last hv (hv.behind htrail (by omega)) (by omega) (by omega)
        (by omega)

theorem readOperand_affords (h : AllAfford k) :
    Affords 6 .operand (k + 1) 3 1 4 fun trail => readOperand (k + 1) trail := by
  intro s trail hs htrail hk
  simp only [readOperand, Grammar.operand]
  apply LeadsOn.enter_bind hs htrail
  intro t _ ht
  apply LeadsOn.current_bind
  split
  · next op _ =>
    apply LeadsOn.next_bind ht (by omega)
    intro _ u hu
    have hleft := hu.left
    apply (h.readFrom op.precedence).bind hu (hu.behind htrail (by omega)) (by omega) (by omega)
    intro operand v hv
    exact .pure (hv.mono (by omega) (by omega))
  · have hleft := ht.left
    apply h.readPrimary.bind ht (ht.inside htrail (by decide)) (by omega) (by omega)
    intro primary u hu
    have hleft := hu.left
    exact (h.readPostfix primary).last hu (hu.behind htrail (by omega)) (by omega) (by omega)
      (by omega)

theorem readPrimary_affords (h : AllAfford k) :
    Affords 6 .primary (k + 1) 2 1 2 fun trail => readPrimary (k + 1) trail := by
  intro s trail hs htrail hk
  simp only [readPrimary, Grammar.primary]
  apply LeadsOn.enter_bind hs htrail
  intro t _ ht
  have hleft := ht.left
  apply LeadsOn.current_bind
  have hparts : ∀ {f : List Expr → Reader Expr},
      beginsPart true t.parser.stream.current = true →
      (∀ parts u, Leads s 1 2 u → LeadsOn s 1 2 (f parts) u) →
      LeadsOn s 1 2 (readParts k (⟨.primary, s.place⟩ :: trail) true >>= f) t := by
    intro f hbegins hf
    have hread := h.readParts true ht.sound (ht.inside htrail (by decide)) (by omega)
    rw [hbegins, if_pos rfl] at hread
    exact LeadsOn.bind ht hread (by omega) hf
  split
  · apply LeadsOn.next_bind ht (by omega)
    intro _ u hu
    exact .pure (hu.mono (by omega) (by omega))
  · unfold Expr.readNumber
    rw [lift_bind]
    apply LeadsOn.next_bind ht (by omega)
    intro token u hu
    split
    · exact .pure_lift (hu.mono (by omega) (by omega))
    · exact .fail hu (by omega) (by simp)
  · next hkind => exact hparts (by simp [beginsPart, hkind]) fun parts u hu => .pure hu
  · next hkind => exact hparts (by simp [beginsPart, hkind]) fun parts u hu => .pure hu
  · split
    · apply LeadsOn.next_bind ht (by omega)
      intro _ u hu
      have hleft := hu.left
      apply (h.readFrom 0).bind hu (hu.behind htrail (by omega)) (by omega) (by omega)
      intro inner v hv
      apply LeadsOn.expect_bind hv (by omega)
      intro _ w hw
      exact .pure (hw.mono (by omega) (by omega))
    split
    · apply LeadsOn.next_bind ht (by omega)
      intro _ u hu
      have hleft := hu.left
      apply (h.readItems true).bind hu (hu.behind htrail (by omega)) (by rw [if_pos rfl]; omega)
        (by rw [if_pos rfl]; omega)
      intro items v hv
      rw [if_pos rfl] at hv
      apply LeadsOn.expect_bind hv (by omega)
      intro _ w hw
      exact .pure (hw.mono (by omega) (by omega))
    · exact .fail ht (by omega) (by simp)

theorem readParts_affords (h : AllAfford k) (plainMayFollow : Bool) {trail : List Visit}
    (hs : s.Sound) (htrail : Descends (⟨.parts, s.place⟩ :: trail))
    (hk : 6 * s.left + 1 ≤ k + 1) :
    LeadsOn s (if beginsPart plainMayFollow s.parser.stream.current then 1 else 0) 1
      (readParts (k + 1) trail plainMayFollow) s := by
  rw [readParts]
  apply LeadsOn.enter_bind hs htrail
  intro t hparser ht
  rw [Grammar.parts, ← hparser]
  generalize htaken : (if beginsPart plainMayFollow t.parser.stream.current then 1 else 0) = taken
  have htaken_le : taken ≤ 1 := by
    rw [← htaken]
    split <;> omega
  have hinterpolation : ∀ {f : Option Token → Reader (List Expr)},
      (∀ start, f (some start) = do
        let inner ← readFrom k (⟨.parts, s.place⟩ :: trail) 0
        let _ ← lift (expect .interpolationEnd none)
        let parts ← readParts k (⟨.parts, s.place⟩ :: trail) true
        return inner :: parts) →
      f none = pure [] →
      (beginsPart plainMayFollow t.parser.stream.current = true →
        t.parser.stream.current.kind = .interpolationStart) →
      LeadsOn s taken 1 (lift (nextIf .interpolationStart none) >>= f) t := by
    intro f hsome hnone hbegins
    apply LeadsOn.nextIf_bind ht (by simp)
    · intro start u hu
      rw [hsome]
      have hleft := hu.left
      apply (h.readFrom 0).bind hu (hu.behind htrail (by omega)) (by omega) (by omega)
      intro inner v hv
      apply LeadsOn.expect_bind hv (by omega)
      intro _ w hw
      have hleft := hw.left
      apply LeadsOn.bind hw
        (h.readParts true hw.sound (hw.behind htrail (by omega)) (by omega)) (by omega)
      intro parts x hx
      exact .pure (hx.mono (by omega) (by omega))
    · intro htest
      have hother : beginsPart plainMayFollow t.parser.stream.current ≠ true := by
        intro hstart
        rw [Token.test_none, hbegins hstart] at htest
        simp at htest
      rw [if_neg hother] at htaken
      rw [hnone]
      exact .pure (ht.mono (by omega) (by omega))
  cases plainMayFollow with
  | false =>
    exact hinterpolation (fun _ => rfl) rfl fun hbegins => by simpa [beginsPart] using hbegins
  | true =>
    apply LeadsOn.nextIf_bind ht (by simp)
    · intro token u hu
      have hleft := hu.left
      apply LeadsOn.bind hu
        (h.readParts false hu.sound (hu.behind htrail (by omega)) (by omega)) (by omega)
      intro parts v hv
      exact .pure (hv.mono (by omega) (by omega))
    · intro htest
      rw [Token.test_none] at htest
      exact hinterpolation (fun _ => rfl) rfl fun hbegins => by
        simpa [beginsPart, htest] using hbegins

theorem readItems_affords (h : AllAfford k) (isFirst : Bool) :
    Affords 6 .items (k + 1) (if isFirst then 5 else 1) 0 (if isFirst then 8 else 1)
      fun trail => readItems (k + 1) trail isFirst := by
  intro s trail hs htrail hk
  simp only [readItems, Grammar.items]
  apply LeadsOn.enter_bind hs htrail
  intro t _ ht
  generalize hcost : (if isFirst then (8 : Int) else 1) = cost
  have hcost_ge : 1 ≤ cost := by
    rw [← hcost]
    split <;> omega
  have hitem : ∀ m c u, Leads s m c u → 6 * u.left + 4 ≤ k → c + 7 ≤ cost →
      LeadsOn s 0 cost
        (do
          if ← lift (test .punctuation (some "]")) then return []
          else
            let item ← readFrom k (⟨.items, s.place⟩ :: trail) 0
            let items ← readItems k (⟨.items, s.place⟩ :: trail) false
            return item :: items) u := by
    intro m c u hu hsteps hc
    apply LeadsOn.test_bind
    intro found
    split
    · exact .pure (hu.mono (by omega) (by omega))
    · apply (h.readFrom 0).bind hu (hu.inside htrail (by decide)) hsteps (by omega)
      intro item v hv
      have hleft := hv.left
      apply (h.readItems false).bind hv (hv.behind htrail (by omega)) (by simp; omega)
        (by simp; omega)
      intro items w hw
      exact .pure (hw.mono (by omega) (by simp; omega))
  have hleft := ht.left
  apply LeadsOn.test_bind
  intro found
  split
  · exact .pure (ht.mono (by omega) (by omega))
  · cases isFirst with
    | true =>
      simp only [if_true] at hk hcost
      exact hitem _ _ t ht (by omega) (by omega)
    | false =>
      simp only [Bool.false_eq_true, if_false] at hk hcost
      apply LeadsOn.expect_bind ht (by omega)
      intro _ u hu
      have hleft := hu.left
      exact hitem _ _ u hu (by omega) (by omega)

theorem readArguments_affords (h : AllAfford k) (isFirst : Bool) :
    Affords 6 .arguments (k + 1) (if isFirst then 5 else 1) 0 (if isFirst then 8 else 1)
      fun trail => readArguments (k + 1) trail isFirst := by
  intro s trail hs htrail hk
  simp only [readArguments, Grammar.arguments]
  apply LeadsOn.enter_bind hs htrail
  intro t _ ht
  generalize hcost : (if isFirst then (8 : Int) else 1) = cost
  have hcost_ge : 1 ≤ cost := by
    rw [← hcost]
    split <;> omega
  have hargument : ∀ m c u, Leads s m c u → 6 * u.left + 4 ≤ k → c + 7 ≤ cost →
      LeadsOn s 0 cost
        (do
          let arg ← readFrom k (⟨.arguments, s.place⟩ :: trail) 0
          let args ← readArguments k (⟨.arguments, s.place⟩ :: trail) false
          return arg :: args) u := by
    intro m c u hu hsteps hc
    apply (h.readFrom 0).bind hu (hu.inside htrail (by decide)) hsteps (by omega)
    intro arg v hv
    have hleft := hv.left
    apply (h.readArguments false).bind hv (hv.behind htrail (by omega)) (by simp; omega)
      (by simp; omega)
    intro args w hw
    exact .pure (hw.mono (by omega) (by simp; omega))
  have hleft := ht.left
  apply LeadsOn.test_bind
  intro found
  split
  · exact .pure (ht.mono (by omega) (by omega))
  · cases isFirst with
    | true =>
      simp only [if_true] at hk hcost
      exact hargument _ _ t ht (by omega) (by omega)
    | false =>
      simp only [Bool.false_eq_true, if_false] at hk hcost
      apply LeadsOn.expect_bind ht (by omega)
      intro _ u hu
      have hleft := hu.left
      exact hargument _ _ u hu (by omega) (by omega)

theorem LeadsOn.readMember_bind {m taken : Nat} {c cost : Int} {f : String → Reader β}
    (ht : Leads s m c t) (hcost : c ≤ cost)
    (hf : ∀ member u, Leads s (m + 1) (c + -7) u → LeadsOn s taken cost (f member) u) :
    LeadsOn s taken cost (lift Expr.readMember >>= f) t := by
  unfold Expr.readMember
  rw [lift_bind, bind_assoc]
  apply LeadsOn.current_bind
  split
  · rw [lift_bind, bind_assoc]
    apply LeadsOn.next_bind ht hcost
    intro _ u hu
    exact LeadsOn.bind_of_ok rfl (hf _ u hu)
  · exact LeadsOn.bind_of_error rfl (by simp [TokenStream.error]) (ht.mono (Nat.zero_le m) hcost)

theorem readPostfix_affords (h : AllAfford k) (object : Expr) :
    Affords 6 .accesses (k + 1) 1 0 1 fun trail => readPostfix (k + 1) trail object := by
  intro s trail hs htrail hk
  simp only [readPostfix, Grammar.accesses]
  apply LeadsOn.enter_bind hs htrail
  intro t _ ht
  apply LeadsOn.current_bind
  have hmore : ∀ object m c u, Leads s m c u → 0 < m → c ≤ 0 →
      LeadsOn s 0 1 (readPostfix k (⟨.accesses, s.place⟩ :: trail) object) u := by
    intro object m c u hu hm hc
    have hleft := hu.left
    exact (h.readPostfix object).last hu (hu.behind htrail hm) (by omega) (by omega) (by omega)
  split
  · apply LeadsOn.next_bind ht (by omega)
    intro _ u hu
    apply LeadsOn.readMember_bind hu (by omega)
    intro member v hv
    exact hmore _ _ _ v hv (by omega) (by omega)
  split
  · apply LeadsOn.next_bind ht (by omega)
    intro _ u hu
    have hleft := hu.left
    apply (h.readFrom 0).bind hu (hu.behind htrail (by omega)) (by omega) (by omega)
    intro index v hv
    apply LeadsOn.expect_bind hv (by omega)
    intro _ w hw
    exact hmore _ _ _ w hw (by omega) (by omega)
  split
  · apply LeadsOn.next_bind ht (by omega)
    intro _ u hu
    apply LeadsOn.expect_bind hu (by omega)
    intro name v hv
    apply LeadsOn.test_bind
    intro found
    split
    · apply LeadsOn.next_bind hv (by omega)
      intro _ w hw
      have hleft := hw.left
      apply (h.readArguments true).bind hw (hw.behind htrail (by omega)) (by rw [if_pos rfl]; omega)
        (by rw [if_pos rfl]; omega)
      intro args x hx
      rw [if_pos rfl] at hx
      apply LeadsOn.expect_bind hx (by omega)
      intro _ y hy
      exact hmore _ _ _ y hy (by omega) (by omega)
    · exact hmore _ _ _ v hv (by omega) (by omega)
  · exact .pure ht

theorem allAfford (k : Nat) : AllAfford k := by
  induction k with
  | zero =>
    have hlist : ∀ isFirst : Bool, 0 < if isFirst then 5 else 1 := by decide
    exact
      { readFrom := fun _ => .of_no_steps (by decide)
        readTail := fun _ _ => .of_no_steps (by decide)
        readOperand := .of_no_steps (by decide)
        readPrimary := .of_no_steps (by decide)
        readParts := fun _ _ _ _ _ hk => absurd hk (by omega)
        readItems := fun isFirst => .of_no_steps (hlist isFirst)
        readArguments := fun isFirst => .of_no_steps (hlist isFirst)
        readPostfix := fun _ => .of_no_steps (by decide) }
  | succ k h =>
    exact
      { readFrom := readFrom_affords h
        readTail := readTail_affords h
        readOperand := readOperand_affords h
        readPrimary := readPrimary_affords h
        readParts := fun plainMayFollow _ _ => readParts_affords h plainMayFollow
        readItems := readItems_affords h
        readArguments := readArguments_affords h
        readPostfix := readPostfix_affords h }

theorem readExpr_bind {m taken : Nat} {c cost : Int} {trail : List Visit} {f : Expr → Reader β}
    (ht : Leads s m c t) (htrail : Descends (⟨.expression, t.place⟩ :: trail))
    (hcost : c + 6 ≤ cost)
    (hf : ∀ expr u, Leads s (m + 1) (c + 6) u → LeadsOn s taken cost (f expr) u) :
    LeadsOn s taken cost (readExpr trail >>= f) t := by
  unfold readExpr
  rw [bind_assoc]
  apply LeadsOn.get_bind
  exact ((allAfford _).readFrom 0).bind ht htrail (by rw [Expr.stepLimit, left]; omega) hcost hf

theorem defineBlock_eq (p : ParserState) (name : String) (line : Nat) :
    defineBlock name line p =
      match p.blocks.lookup name with
      | some defined => .error (p.stream.error (.duplicateBlock name defined) line) p
      | none => .ok () { p with blocks := (name, line) :: p.blocks } := by
  show (match p.blocks.lookup name with
    | some defined => Document.lift (TokenReader.fail (.duplicateBlock name defined) line)
    | none => set { p with blocks := (name, line) :: p.blocks } : Document.Reader Unit) p = _
  cases p.blocks.lookup name <;> rfl

namespace LeadsOn

variable {taken m : Nat} {c cost : Int}

theorem blockEnd_bind {f : Unit → Reader β} (ht : Leads s m c t) (hcost : c ≤ cost)
    (hf : ∀ u, Leads s (m + 1) (c + -7) u → LeadsOn s taken cost (f ()) u) :
    LeadsOn s taken cost (within blockEnd >>= f) t := by
  unfold blockEnd
  rw [within_bind, bind_assoc]
  exact expect_bind ht hcost fun _ u hu => bind_of_ok rfl (hf u hu)

theorem lastExpression_bind {trail : List Visit} {f : Expr → Reader β} (ht : Leads s m c t)
    (htrail : Descends (⟨.expression, t.place⟩ :: trail)) (hcost : c + 6 ≤ cost)
    (hf : ∀ expr u, Leads s (m + 2) (c + -1) u → LeadsOn s taken cost (f expr) u) :
    LeadsOn s taken cost (lastExpression trail >>= f) t := by
  unfold lastExpression
  rw [bind_assoc]
  apply readExpr_bind ht htrail hcost
  intro expr u hu
  rw [bind_assoc]
  apply blockEnd_bind hu hcost
  intro v hv
  exact bind_of_ok rfl (hf expr v (hv.mono (by omega) (by omega)))

/-- A definition leaves the tokens and the visits alone. -/
theorem defineBlock_bind {name : String} {line : Nat} {f : Unit → Reader β} (ht : Leads s m c t)
    (hcost : c ≤ cost) (hf : ∀ u, Leads s m c u → LeadsOn s taken cost (f ()) u) :
    LeadsOn s taken cost (within (defineBlock name line) >>= f) t := by
  have hdefine := defineBlock_eq t.parser name line
  cases hlookup : t.parser.blocks.lookup name with
  | none =>
    rw [hlookup] at hdefine
    exact bind_of_ok (within_eq_ok hdefine)
      (hf _ ⟨⟨ht.sound.closed, ht.sound.descends⟩, ht.place, ht.left, ht.cost⟩)
  | some defined =>
    rw [hlookup] at hdefine
    exact bind_of_error (within_eq_error hdefine) (by simp [TokenStream.error])
      (ht.mono (Nat.zero_le m) hcost)

theorem readLoopNames_bind {f : Option String × String → Reader β} (ht : Leads s m c t)
    (hcost : c ≤ cost) (hf : ∀ names u, Leads s (m + 2) c u → LeadsOn s taken cost (f names) u) :
    LeadsOn s taken cost (lift readLoopNames >>= f) t := by
  unfold readLoopNames
  rw [lift_bind, bind_assoc]
  apply expect_bind ht hcost
  intro first u hu
  rw [lift_bind, bind_assoc]
  apply nextIf_bind hu (by simp)
  · intro comma v hv
    simp only [pure_bind]
    rw [lift_bind, bind_assoc]
    apply expect_bind hv (by omega)
    intro target w hw
    rw [lift_bind, bind_assoc]
    apply expect_bind hw (by omega)
    intro _ x hx
    exact bind_of_ok rfl (hf _ x (hx.mono (by omega) (by omega)))
  · intro _
    simp only [pure_bind]
    rw [lift_bind, bind_assoc]
    apply expect_bind hu (by omega)
    intro _ v hv
    exact bind_of_ok rfl (hf _ v (hv.mono (by omega) (by omega)))

theorem readEndName_bind {name : String} {f : Unit → Reader β} (ht : Leads s m c t)
    (hcost : c ≤ cost) (hf : ∀ u, Leads s m c u → LeadsOn s taken cost (f ()) u) :
    LeadsOn s taken cost (lift (readEndName name) >>= f) t := by
  unfold readEndName
  rw [lift_bind, bind_assoc]
  apply nextIf_bind ht (by simp)
  · intro given u hu
    have hu' : Leads s m c u := hu.mono (by omega) (by omega)
    simp only
    split
    · exact bind_of_ok rfl (hf u hu')
    · exact bind_of_error rfl (by simp [TokenStream.error]) (hu'.mono (Nat.zero_le m) hcost)
  · intro _
    exact bind_of_ok rfl (hf t ht)

/-- A token is put behind one that is not the last and then is the current one. -/
theorem leads_injected (ht : t.Sound) (hkind : t.parser.stream.current.kind ≠ .eof)
    (token : Token) :
    Leads t 0 0 (t.withStream (t.parser.stream.moved token t.parser.stream.after)) := by
  have hafter : t.parser.stream.after ≠ [] := after_ne_nil ht hkind
  have hclosed : (t.parser.stream.inject [token]).Closed :=
    (TokenStream.closed_inject_iff ht.closed [token]).2 fun h => absurd h hafter
  have hmoved : (t.parser.stream.moved token t.parser.stream.after).tokens =
      (t.parser.stream.inject [token]).tokens :=
    @TokenStream.tokens_moved (t.parser.stream.inject [token]) _ _ rfl
  rw [TokenStream.Closed, ← hmoved] at hclosed
  exact ⟨⟨hclosed, ht.descends⟩, Nat.le_succ _, Nat.le_refl _, Int.le_of_eq (by simp; rfl)⟩

theorem readComment (ht : Leads s m c t) (htaken : taken ≤ m) (hcost : c ≤ cost) :
    LeadsOn s taken cost (lift Document.readComment) t := by
  have hrest : ∀ {n : Nat} {d : Int} {u : TracedParser} (g : Token → Node),
      Leads s n d u → taken ≤ n → d ≤ cost → LeadsOn s taken cost
        (lift do
          let text ← expect .text none
          let _ ← expect .blockEnd none
          return g text) u := by
    intro n d u g hu hn hd
    rw [lift_bind]
    apply expect_bind hu hd
    intro text v hv
    rw [lift_bind]
    apply expect_bind hv (by omega)
    intro _ w hw
    exact .pure_lift (hw.mono (by omega) (by omega))
  unfold Document.readComment
  rw [lift_bind]
  apply current_bind
  by_cases hstring : t.parser.stream.current.kind = .string
  · have hkind : t.parser.stream.current.kind ≠ .eof := by simp [hstring]
    simp only [hstring, beq_self_eq_true, if_true]
    exact hrest _ (ht.trans (leads_injected ht.sound hkind _)) (by omega) (by omega)
  · have hfalse : (t.parser.stream.current.kind == .string) = false := by simp [hstring]
    simp only [hfalse, Bool.false_eq_true, if_false]
    exact hrest _ ht htaken hcost

end LeadsOn

structure AllAffordNodes (tags : TagSet) (k : Nat) : Prop where
  readNodes (ends : List String) (enclosing : Option String) :
    Affords 3 .nodes k 1 0 1 fun trail => readNodes tags k trail ends enclosing
  readTag (tag : Tag) (line : Nat) (enclosing : Option String) :
    Affords 3 .tag k 1 0 7 fun trail => readTag tags k trail tag line enclosing
  readBranches (line : Nat) (otherwise : Option (List Node)) (enclosing : Option String) :
    Affords 3 .branches k 1 0 1 fun trail => readBranches tags k trail line otherwise enclosing

variable {tags : TagSet}

theorem readNodes_affords (h : AllAffordNodes tags k) (ends : List String)
    (enclosing : Option String) :
    Affords 3 .nodes (k + 1) 1 0 1 fun trail => readNodes tags (k + 1) trail ends enclosing := by
  intro s trail hs htrail hk
  simp only [readNodes, Grammar.nodes]
  apply LeadsOn.enter_bind hs htrail
  intro t _ ht
  have hmore : ∀ node m c u, Leads s m c u → 0 < m → c ≤ 0 → LeadsOn s 0 1
      (do
        let nodes ← readNodes tags k (⟨.nodes, s.place⟩ :: trail) ends enclosing
        return node :: nodes) u := by
    intro node m c u hu hm hc
    have hleft := hu.left
    apply (h.readNodes ends enclosing).bind hu (hu.behind htrail hm) (by omega) (by omega)
    intro nodes v hv
    exact .pure (hv.mono (by omega) (by omega))
  apply LeadsOn.current_bind
  split
  · split
    · exact .pure ht
    · exact .fail ht (by omega) (by simp)
  · apply LeadsOn.next_bind ht (by omega)
    intro _ u hu
    exact hmore _ _ _ u hu (by omega) (by omega)
  · apply LeadsOn.next_bind ht (by omega)
    intro _ u hu
    apply readExpr_bind hu (hu.behind htrail (by omega)) (by omega)
    intro expr v hv
    apply LeadsOn.expect_bind hv (by omega)
    intro _ w hw
    exact hmore _ _ _ w hw (by omega) (by omega)
  · apply LeadsOn.next_bind ht (by omega)
    intro _ u hu
    apply LeadsOn.current_bind
    split
    · exact .fail hu (by omega) (by simp)
    split
    · exact .pure (hu.mono (by omega) (by omega))
    split
    · exact .fail hu (by omega) (by simp)
    · next tag _ =>
      apply LeadsOn.next_bind hu (by omega)
      intro _ v hv
      have hleft := hv.left
      apply (h.readTag tag _ enclosing).bind hv (hv.behind htrail (by omega)) (by omega) (by omega)
      intro node w hw
      exact hmore _ _ _ w hw (by omega) (by omega)
  · exact .fail ht (by omega) (by simp)

theorem readTag_affords (h : AllAffordNodes tags k) (tag : Tag) (line : Nat)
    (enclosing : Option String) :
    Affords 3 .tag (k + 1) 1 0 7 fun trail => readTag tags (k + 1) trail tag line enclosing := by
  intro s trail hs htrail hk
  simp only [readTag, Grammar.tag]
  apply LeadsOn.enter_bind hs htrail
  intro t _ ht
  have hbody : ∀ {f : List Node → Reader Node} ends enclosing m c u, Leads s m c u → 0 < m →
      c + 1 ≤ 7 → (∀ body v, Leads s m (c + 1) v → LeadsOn s 0 7 (f body) v) →
      LeadsOn s 0 7 (readNodes tags k (⟨.tag, s.place⟩ :: trail) ends enclosing >>= f) u := by
    intro f ends enclosing m c u hu hm hc hf
    have hleft := hu.left
    exact (h.readNodes ends enclosing).bind hu (hu.behind htrail hm) (by omega) hc hf
  have hend : ∀ (node : Node) m c u, Leads s m c u → c ≤ 7 →
      LeadsOn s 0 7 (do within blockEnd; return node) u := by
    intro node m c u hu hc
    apply LeadsOn.blockEnd_bind hu hc
    intro v hv
    exact .pure (hv.mono (by omega) (by omega))
  cases tag with
  | choice =>
    apply LeadsOn.lastExpression_bind ht (ht.inside htrail (by decide)) (by omega)
    intro condition u hu
    apply hbody _ _ _ _ u hu (by omega) (by omega)
    intro body v hv
    have hleft := hv.left
    apply (h.readBranches line none enclosing).bind hv (hv.behind htrail (by omega)) (by omega)
      (by omega)
    intro branches w hw
    exact hend _ _ _ w hw (by omega)
  | loop =>
    apply LeadsOn.readLoopNames_bind ht (by omega)
    intro names u hu
    apply LeadsOn.lastExpression_bind hu (hu.inside htrail (by decide)) (by omega)
    intro iterable v hv
    apply hbody _ _ _ _ v hv (by omega) (by omega)
    intro body w hw
    apply LeadsOn.next_bind hw (by omega)
    intro ending x hx
    split
    · apply LeadsOn.blockEnd_bind hx (by omega)
      intro y hy
      apply hbody _ _ _ _ y hy (by omega) (by omega)
      intro otherwise z hz
      apply LeadsOn.next_bind hz (by omega)
      intro _ z' hz'
      exact hend _ _ _ z' hz' (by omega)
    · exact hend _ _ _ x hx (by omega)
  | block =>
    apply LeadsOn.expect_bind ht (by omega)
    intro name u hu
    apply LeadsOn.defineBlock_bind hu (by omega)
    intro v hv
    apply LeadsOn.test_bind
    intro found
    split
    · apply LeadsOn.blockEnd_bind hv (by omega)
      intro w hw
      apply hbody _ _ _ _ w hw (by omega) (by omega)
      intro body x hx
      apply LeadsOn.next_bind hx (by omega)
      intro _ y hy
      apply LeadsOn.readEndName_bind hy (by omega)
      intro z hz
      exact hend _ _ _ z hz (by omega)
    · apply readExpr_bind hv (hv.behind htrail (by omega)) (by omega)
      intro expr w hw
      exact hend _ _ _ w hw (by omega)
  | comment => exact .readComment ht (by omega) (by omega)
  | here => exact hend _ _ _ t ht (by omega)

theorem readBranches_affords (h : AllAffordNodes tags k) (line : Nat)
    (otherwise : Option (List Node)) (enclosing : Option String) :
    Affords 3 .branches (k + 1) 1 0 1
      fun trail => readBranches tags (k + 1) trail line otherwise enclosing := by
  intro s trail hs htrail hk
  simp only [readBranches, Grammar.branches]
  apply LeadsOn.enter_bind hs htrail
  intro t _ ht
  apply LeadsOn.next_bind ht (by omega)
  intro ending u hu
  have hbody : ∀ {f : List Node → Reader (List Branch × Option (List Node))} ends m c v,
      Leads s m c v → 0 < m → c ≤ 0 → (∀ body w, Leads s m (c + 1) w → LeadsOn s 0 1 (f body) w) →
      LeadsOn s 0 1 (readNodes tags k (⟨.branches, s.place⟩ :: trail) ends enclosing >>= f) v := by
    intro f ends m c v hv hm hc hf
    have hleft := hv.left
    exact (h.readNodes ends enclosing).bind hv (hv.behind htrail hm) (by omega) (by omega) hf
  split
  · apply LeadsOn.blockEnd_bind hu (by omega)
    intro v hv
    apply hbody _ _ _ v hv (by omega) (by omega)
    intro body w hw
    have hleft := hw.left
    exact (h.readBranches line _ enclosing).last hw (hw.behind htrail (by omega)) (by omega)
      (by omega) (by omega)
  split
  · apply LeadsOn.lastExpression_bind hu (hu.behind htrail (by omega)) (by omega)
    intro condition v hv
    apply hbody _ _ _ v hv (by omega) (by omega)
    intro body w hw
    have hleft := hw.left
    apply (h.readBranches line otherwise enclosing).bind hw (hw.behind htrail (by omega)) (by omega)
      (by omega)
    intro branches x hx
    exact .pure (hx.mono (by omega) (by omega))
  split
  · exact .pure (hu.mono (by omega) (by omega))
  · exact .fail hu (by omega) (by simp)

theorem allAffordNodes (tags : TagSet) (k : Nat) : AllAffordNodes tags k := by
  induction k with
  | zero =>
    exact
      { readNodes := fun _ _ => .of_no_steps (by decide)
        readTag := fun _ _ _ => .of_no_steps (by decide)
        readBranches := fun _ _ _ => .of_no_steps (by decide) }
  | succ k h =>
    exact
      { readNodes := readNodes_affords h
        readTag := readTag_affords h
        readBranches := readBranches_affords h }

/-- At most one token more is ahead of the first one than there are behind it. -/
theorem length_after_ofTokens (tokens : List Token) (source : String) :
    (TokenStream.ofTokens tokens source).after.length ≤ tokens.length := by
  have hclose : (TokenStream.closeList tokens).length ≤ tokens.length + 1 := by
    unfold TokenStream.closeList
    split
    · simp
    · split <;> simp
  unfold TokenStream.ofTokens
  split
  · simp
  · next htokens =>
    rw [htokens] at hclose
    exact Nat.le_of_succ_le_succ hclose

theorem readNodes_leadsOn (tags : TagSet) (tokens : List Token) (source : String) :
    LeadsOn ⟨⟨TokenStream.ofTokens tokens source, []⟩, []⟩ 0 1
      (readNodes tags (stepLimit (TokenStream.ofTokens tokens source).after.length) [] [] none)
      ⟨⟨TokenStream.ofTokens tokens source, []⟩, []⟩ :=
  (allAffordNodes tags _).readNodes [] none _ []
    ⟨TokenStream.closed_ofTokens tokens source, by simp⟩ (descends_singleton _)
    (Nat.add_le_add_left (by decide : 1 ≤ 3) _)

/-- A parser reads every list of tokens, and on the record the same. The record begins with the
first routine; the routines are visited at most seven times for each token and once more, and none
from inside itself unless a token has been taken since. No step limit runs out: a higher one changes
nothing. -/
theorem read_visits (tags : TagSet) (tokens : List Token) (source : String) :
    ∃ log,
      TracedParser.read tags (.ofTokens tokens source) =
        (Document.read tags (.ofTokens tokens source), log) ∧
      [[⟨.nodes, 0⟩]] <:+ log ∧
      log.length ≤ 7 * tokens.length + 1 ∧
      (∀ trail ∈ log, Progresses trail) ∧
      (∀ e, Document.read tags (.ofTokens tokens source) = .error e → e.fault ≠ .outOfSteps) ∧
      ∀ steps ≥ stepLimit (TokenStream.ofTokens tokens source).after.length,
        Document.readNodes tags steps [] none ⟨.ofTokens tokens source, []⟩ =
          Document.readNodes tags (stepLimit (TokenStream.ofTokens tokens source).after.length) []
            none ⟨.ofTokens tokens source, []⟩ := by
  have hlength := length_after_ofTokens tokens source
  have hleads := readNodes_leadsOn tags tokens source
  have hfinishes := hleads.finishes
  have hfirst := record_readNodes tags (.ofTokens tokens source)
    (TokenStream.ofTokens tokens source).after.length
  rw [TokenStream.position, TokenStream.before_ofTokens, List.length_nil] at hfirst
  obtain ⟨t, hrecord, ht⟩ := hleads.exists_leads
  refine ⟨_, read_eq_of_finishes tags _ hfinishes, hfirst, ?_, ?_,
    fun e he => fault_ne_of_read hfinishes he, fun steps hsteps => ?_⟩
  · have hcost := ht.cost
    simp only [List.length_nil, left] at hcost
    rw [hrecord]
    omega
  · intro trail htrail
    rw [hrecord] at htrail
    exact (ht.sound.descends trail htrail).progresses
  · rw [readNodes_eq_erase hsteps hfinishes, readNodes_eq_erase (Nat.le_refl _) hfinishes]

example : (TracedParser.read .builtins (.ofTokens [⟨.text, "a", 1⟩, ⟨.text, "b", 1⟩] "page")).2 =
    [[⟨.nodes, 2⟩, ⟨.nodes, 1⟩, ⟨.nodes, 0⟩], [⟨.nodes, 1⟩, ⟨.nodes, 0⟩], [⟨.nodes, 0⟩]] := by
  rfl

end TemplateEngine.Document.TracedParser
