import TemplateEngine.Proofs.Expr.Reading

/-!
Chains of names with operators between them. Main statement: from a chain with a token behind it
that goes on with nothing, a read takes all of the chain and gives the one binary tree that lists
the chain in order and in which every operator agrees with those of its operands.
-/

namespace TemplateEngine

namespace BinaryOp

/-- An expression with the operator `q` can stand to the left of `op` without parentheses. -/
def BindsLeft (op q : BinaryOp) : Prop :=
  op.precedence < q.precedence ∨ q.precedence = op.precedence ∧ op.isRightAssociative = false

/-- An expression with the operator `q` can stand to the right of `op` without parentheses. -/
def BindsRight (op q : BinaryOp) : Prop :=
  op.precedence < q.precedence ∨ q.precedence = op.precedence ∧ op.isRightAssociative = true

instance (op q : BinaryOp) : Decidable (op.BindsLeft q) :=
  inferInstanceAs (Decidable (_ ∨ _))

instance (op q : BinaryOp) : Decidable (op.BindsRight q) :=
  inferInstanceAs (Decidable (_ ∨ _))

/-- All operators of one precedence are grouped from the same side. -/
theorem isRightAssociative_iff (op : BinaryOp) :
    op.isRightAssociative = true ↔ op.precedence = pow.precedence := by
  cases op <;> decide

theorem isRightAssociative_congr {op q : BinaryOp} (h : op.precedence = q.precedence) :
    op.isRightAssociative = q.isRightAssociative := by
  rw [Bool.eq_iff_iff, isRightAssociative_iff, isRightAssociative_iff, h]

theorem rightMinimum_le_iff {op q : BinaryOp} :
    op.rightMinimum ≤ q.precedence ↔ op.BindsRight q := by
  unfold rightMinimum BindsRight
  cases op.isRightAssociative with
  | true =>
    simp only [if_true, and_true]
    omega
  | false =>
    simp only [Bool.false_eq_true, if_false, and_false, or_false]
    omega

/-- The reading of a right operand stops at the operators that take what was read as their left
operand. -/
theorem lt_rightMinimum_iff {op q : BinaryOp} :
    op.precedence < q.rightMinimum ↔ op.BindsLeft q := by
  have hsame : q.precedence = op.precedence → op.isRightAssociative = q.isRightAssociative :=
    fun h => isRightAssociative_congr h.symm
  unfold rightMinimum BindsLeft
  cases hq : q.isRightAssociative with
  | true =>
    simp only [if_true]
    refine ⟨.inl, fun h => h.resolve_right ?_⟩
    rintro ⟨hprecedence, hop⟩
    rw [hsame hprecedence, hq] at hop
    exact absurd hop (by decide)
  | false =>
    simp only [Bool.false_eq_true, if_false]
    constructor
    · intro h
      by_cases hlt : op.precedence < q.precedence
      · exact .inl hlt
      · have hprecedence : q.precedence = op.precedence := by omega
        exact .inr ⟨hprecedence, (hsame hprecedence).trans hq⟩
    · rintro (h | ⟨h, -⟩) <;> omega

theorem text_inj {op q : BinaryOp} (h : op.text = q.text) : op = q := by
  have hsame := ofText?_text op
  rw [h, ofText?_text] at hsame
  exact (Option.some.inj hsame).symm

theorem BindsLeft.mono {op q p : BinaryOp} (h : op.BindsLeft q)
    (hle : q.precedence ≤ p.precedence) : op.BindsLeft p := by
  rcases h with h | ⟨h, hop⟩
  · exact .inl (by omega)
  · by_cases hlt : op.precedence < p.precedence
    · exact .inl hlt
    · exact .inr ⟨by omega, hop⟩

theorem BindsRight.mono {op q p : BinaryOp} (h : op.BindsRight q)
    (hle : q.precedence ≤ p.precedence) : op.BindsRight p := by
  rw [← rightMinimum_le_iff] at h ⊢
  exact h.trans hle

theorem BindsLeft.le {op q : BinaryOp} (h : op.BindsLeft q) : op.precedence ≤ q.precedence := by
  rcases h with h | ⟨h, -⟩ <;> omega

theorem BindsRight.le {op q : BinaryOp} (h : op.BindsRight q) : op.precedence ≤ q.precedence := by
  rcases h with h | ⟨h, -⟩ <;> omega

/-- Of two operators only one can take the other one to its side. -/
theorem BindsLeft.not_bindsRight {op q : BinaryOp} (h : op.BindsLeft q) : ¬ q.BindsRight op := by
  rw [← rightMinimum_le_iff, Nat.not_le]
  exact lt_rightMinimum_iff.2 h

theorem ofText?_eq_some {text : String} {op : BinaryOp} (h : ofText? text = some op) :
    text = op.text := by
  unfold ofText? at h
  split at h
  all_goals first
    | (obtain rfl := Option.some.inj h; rfl)
    | simp at h

end BinaryOp

namespace Expr

open TokenReader BinaryOp

/-- The operator at the root of an expression, if it is a binary one. -/
def root? : Expr → Option BinaryOp
  | binary _ op _ _ => some op
  | _ => none

@[simp] theorem root?_name (line : Nat) (value : String) : (name line value).root? = none := rfl

@[simp] theorem root?_binary (line : Nat) (op : BinaryOp) (left right : Expr) :
    (binary line op left right).root? = some op :=
  rfl

/-- A binary tree over names in which every operator agrees with those of its operands. -/
inductive Grouped : Expr → Prop
  | name (line : Nat) (value : String) : Grouped (name line value)
  | binary {line : Nat} {op : BinaryOp} {left right : Expr}
      (hleft : ∀ q ∈ left.root?, op.BindsLeft q) (hright : ∀ q ∈ right.root?, op.BindsRight q)
      (h : Grouped left) (h' : Grouped right) : Grouped (binary line op left right)

/-- The names and operators of a binary tree in order, as tokens. -/
def inOrder : Expr → List Token
  | name line value => [⟨.name, value, line⟩]
  | binary line op left right => left.inOrder ++ ⟨.operator, op.text, line⟩ :: right.inOrder
  | _ => []

theorem inOrder_ne_nil {e : Expr} (h : e.Grouped) : e.inOrder ≠ [] := by
  cases h <;> simp [inOrder]

theorem binaryOp?_operator (line : Nat) (op : BinaryOp) :
    binaryOp? ⟨.operator, op.text, line⟩ = some op := by
  simp [binaryOp?]

theorem eq_of_binaryOp? {t : Token} {op : BinaryOp} (h : binaryOp? t = some op) :
    t = ⟨.operator, op.text, t.line⟩ := by
  unfold binaryOp? at h
  split at h
  · next hkind => rw [← ofText?_eq_some h, ← hkind]
  · simp at h

/-- What holds of the root of a tree and of all operators that bind as tightly holds of all
operators in it. -/
theorem Grouped.forall_operators {e : Expr} (h : e.Grouped) {P : BinaryOp → Prop}
    (hP : ∀ q p, P q → q.precedence ≤ p.precedence → P p) (hroot : ∀ q ∈ e.root?, P q) :
    ∀ t ∈ e.inOrder, ∀ q, binaryOp? t = some q → P q := by
  induction h with
  | name line value =>
    intro t ht q hq
    rw [List.mem_singleton.1 ht] at hq
    simp [binaryOp?] at hq
  | @binary line op left right hleft hright _ _ ihleft ihright =>
    have hop : P op := hroot op rfl
    intro t ht q hq
    rcases List.mem_append.1 ht with ht | ht
    · exact ihleft (fun p hp => hP op p hop (hleft p hp).le) t ht q hq
    rcases List.mem_cons.1 ht with rfl | ht
    · rw [binaryOp?_operator] at hq
      rwa [← Option.some.inj hq]
    · exact ihright (fun p hp => hP op p hop (hright p hp).le) t ht q hq

/-- If one tree has its root in front of the root of another one that lists the same, each root is
in an operand of the other one, and one of the two does not bind there. -/
theorem not_inOrder_of_lt {line line' : Nat} {op op' : BinaryOp} {left right left' right' : Expr}
    {middle : List Token} (h : Grouped (binary line op left right))
    (h' : Grouped (binary line' op' left' right'))
    (hleft : left'.inOrder = left.inOrder ++ ⟨.operator, op.text, line⟩ :: middle)
    (hright : right.inOrder = middle ++ ⟨.operator, op'.text, line'⟩ :: right'.inOrder) :
    False := by
  cases h with
  | binary _ hbinds _ hgrouped =>
    cases h' with
    | binary hbinds' _ hgrouped' _ =>
      have hop : op'.BindsLeft op :=
        hgrouped'.forall_operators (fun _ _ => BindsLeft.mono) hbinds' _ (by simp [hleft]) op
          (binaryOp?_operator line op)
      have hop' : op.BindsRight op' :=
        hgrouped.forall_operators (fun _ _ => BindsRight.mono) hbinds _ (by simp [hright]) op'
          (binaryOp?_operator line' op')
      exact hop.not_bindsRight hop'

/-- Trees that list the same have their roots at the same place. -/
theorem left_inOrder_eq {line line' : Nat} {op op' : BinaryOp} {left right left' right' : Expr}
    (h : Grouped (binary line op left right)) (h' : Grouped (binary line' op' left' right'))
    (heq : (binary line op left right).inOrder = (binary line' op' left' right').inOrder) :
    left.inOrder = left'.inOrder := by
  rw [inOrder, inOrder] at heq
  rcases List.append_eq_append_iff.1 heq with ⟨middle, hfront, hback⟩ | ⟨middle, hfront, hback⟩
  · cases middle with
    | nil => rw [hfront, List.append_nil]
    | cons t middle =>
      obtain ⟨rfl, hrest⟩ := List.cons.inj hback
      exact (not_inOrder_of_lt h h' hfront hrest).elim
  · cases middle with
    | nil => rw [hfront, List.append_nil]
    | cons t middle =>
      obtain ⟨rfl, hrest⟩ := List.cons.inj hback
      exact (not_inOrder_of_lt h' h hfront hrest).elim

theorem length_inOrder_binary {left : Expr} (hleft : left.Grouped) (line : Nat) (op : BinaryOp)
    (right : Expr) : 1 < (binary line op left right).inOrder.length := by
  have := List.length_pos_iff.2 (inOrder_ne_nil hleft)
  rw [inOrder, List.length_append, List.length_cons]
  omega

/-- A tree in which the operators agree is determined by what it lists. -/
theorem Grouped.eq_of_inOrder {e e' : Expr} (h : e.Grouped) (h' : e'.Grouped)
    (heq : e.inOrder = e'.inOrder) : e = e' := by
  induction h generalizing e' with
  | name line value =>
    cases h' with
    | name line' value' =>
      simp only [inOrder, List.cons.injEq, Token.mk.injEq, true_and, and_true] at heq
      rw [heq.1, heq.2]
    | binary _ _ hleft _ =>
      have hlength : 1 < [(⟨.name, value, line⟩ : Token)].length :=
        (length_inOrder_binary hleft _ _ _).trans_eq (congrArg List.length heq).symm
      exact absurd hlength (Nat.lt_irrefl 1)
  | @binary line op left right hbinds hbinds' hleft hright ihleft ihright =>
    have hbinary : Grouped (Expr.binary line op left right) := .binary hbinds hbinds' hleft hright
    cases h' with
    | name line' value' =>
      have hlength : 1 < [(⟨.name, value', line'⟩ : Token)].length :=
        (length_inOrder_binary hleft _ _ _).trans_eq (congrArg List.length heq)
      exact absurd hlength (Nat.lt_irrefl 1)
    | binary hbinds hbinds' hleft' hright' =>
      have hfront := left_inOrder_eq hbinary (.binary hbinds hbinds' hleft' hright') heq
      rw [inOrder, inOrder, hfront] at heq
      obtain ⟨hroot, hback⟩ := List.cons.inj (List.append_cancel_left heq)
      obtain ⟨-, htext, hline⟩ := Token.mk.inj hroot
      rw [ihleft hleft' hfront, ihright hright' hback, hline, text_inj htext]

/-- A token that is an operand by itself: a name that does not stand for a value. -/
def IsOperand (t : Token) : Prop :=
  t.kind = .name ∧ t.value ∉ literalWords

inductive Links : List Token → Prop
  | nil : Links []
  | cons {operator operand : Token} {ts : List Token} (hop : (binaryOp? operator).isSome)
      (hoperand : IsOperand operand) (h : Links ts) : Links (operator :: operand :: ts)

/-- A token that goes on with nothing behind an operand. -/
def EndsChain (t : Token) : Prop :=
  t.kind ≠ .operator ∧ t.kind ≠ .punctuation

theorem EndsChain.binaryOp? {t : Token} (h : EndsChain t) : binaryOp? t = none := by
  simp [Expr.binaryOp?, h.1]

/-- Behind links stands an operator or the token behind the chain, and neither goes on with the
operand. -/
theorem Links.exists_head {links : List Token} {ending : Token} (h : Links links)
    (hend : EndsChain ending) (rest : List Token) :
    ∃ t ts, links ++ ending :: rest = t :: ts ∧ t.kind ≠ .punctuation := by
  cases h with
  | nil => exact ⟨ending, rest, rfl, hend.2⟩
  | @cons operator operand ts hop _ _ =>
    refine ⟨operator, _, rfl, ?_⟩
    obtain ⟨op, hop⟩ := Option.isSome_iff_exists.1 hop
    rw [eq_of_binaryOp? hop]
    simp

theorem IsOperand.ofName {t : Token} (h : IsOperand t) :
    ofName t.line t.value = name t.line t.value := by
  have hword := h.2
  simp only [literalWords, List.mem_cons, List.not_mem_nil, or_false, not_or] at hword
  simp [Expr.ofName, hword]

theorem IsOperand.inOrder {t : Token} (h : IsOperand t) :
    (name t.line t.value).inOrder = [t] := by
  rw [Expr.inOrder, ← h.1]

/-- An operand is read alone, up to an operator or the end of the chain. -/
theorem IsOperand.takes {t next : Token} {rest : List Token} {s : TokenStream} (h : IsOperand t)
    (hs : s.ahead = t :: next :: rest) (hnext : next.kind ≠ .punctuation) {k : Nat} (hk : 2 ≤ k) :
    Takes (readOperand k) s (· = name t.line t.value) (next :: rest) := by
  obtain ⟨k, rfl⟩ : ∃ j, k = j + 1 + 1 := ⟨k - 2, by omega⟩
  have hunary : unaryOp? t = none := by simp [unaryOp?, h.1]
  have hprimary : Takes (readPrimary (k + 1)) s (· = name t.line t.value) (next :: rest) := by
    rw [readPrimary, Grammar.primary]
    apply Takes.ofCurrent hs
    simp only [h.1]
    apply (Takes.next hs).bind
    intro _ v _ hv
    exact .pure h.ofName hv
  rw [readOperand, Grammar.operand]
  apply Takes.ofCurrent hs
  rw [hunary]
  apply hprimary.bind
  rintro _ v rfl hv
  rw [readPostfix, Grammar.accesses]
  apply Takes.ofCurrent hv
  have hmark : ∀ mark, isMark next mark = false := fun mark => by simp [isMark, hnext]
  simp only [hmark, Bool.false_eq_true, if_false]
  exact .pure rfl hv

/-- What reading operators that bind at least as tightly as `minimum` comes to: a tree of what was
read before and of the first links, and the other links, of which the first binds less tightly. -/
structure Climbed (minimum : Nat) (before links : List Token) (e : Expr) (left : List Token) :
    Prop where
  grouped : e.Grouped
  root : ∀ q ∈ e.root?, minimum ≤ q.precedence
  inOrder : before ++ links = e.inOrder ++ left
  rest : Links left
  length_le : left.length ≤ links.length
  stops : ∀ t ∈ left.head?, ∀ op ∈ binaryOp? t, op.precedence < minimum

/-- A read from a stream with links ahead, behind what was read before, climbs. -/
def Climbs (reader : TokenReader Expr) (minimum : Nat) (before links : List Token)
    (behind : List Token) (s : TokenStream) : Prop :=
  ∃ e left t, Climbed minimum before links e left ∧ t.ahead = left ++ behind ∧
    outcome reader s = .ok (e, t)

/-- From an operand with links behind it, a read with enough steps climbs. -/
def FromClimbs (k : Nat) : Prop :=
  ∀ (minimum : Nat) (s : TokenStream) (first ending : Token) (links rest : List Token),
    IsOperand first → Links links → EndsChain ending →
    s.ahead = first :: (links ++ ending :: rest) → links.length + 3 ≤ k →
    Climbs (readFrom k minimum) minimum [first] links (ending :: rest) s

/-- Behind a tree that the next operator takes as its left operand, a read with enough steps
climbs. -/
def TailClimbs (k : Nat) : Prop :=
  ∀ (minimum : Nat) (s : TokenStream) (e : Expr) (ending : Token) (links rest : List Token),
    e.Grouped → (∀ q ∈ e.root?, minimum ≤ q.precedence) →
    (∀ t ∈ links.head?, ∀ op ∈ binaryOp? t, ∀ q ∈ e.root?, op.BindsLeft q) →
    Links links → EndsChain ending → s.ahead = links ++ ending :: rest → links.length + 2 ≤ k →
    Climbs (readTail k minimum e) minimum e.inOrder links (ending :: rest) s

theorem readFrom_climbs {k : Nat} (h : TailClimbs k) : FromClimbs (k + 1) := by
  intro minimum s first ending links rest hfirst hlinks hend hs hk
  obtain ⟨next, more, hmore, hnext⟩ := hlinks.exists_head hend rest
  rw [hmore] at hs
  obtain ⟨_, t, rfl, ht, hoperand⟩ := hfirst.takes (k := k) hs hnext (by omega)
  rw [← hmore] at ht
  obtain ⟨e, left, u, hclimbed, hu, htail⟩ :=
    h minimum t (name first.line first.value) ending links rest (.name _ _) (by simp) (by simp)
      hlinks hend ht (by omega)
  rw [hfirst.inOrder] at hclimbed
  refine ⟨e, left, u, hclimbed, hu, ?_⟩
  rw [readFrom, Grammar.expression, outcome_bind, hoperand, ok_bind, htail]

/-- Where no operator follows that binds as tightly as the minimum, the tail is empty. -/
theorem readTail_stops {k minimum : Nat} {s : TokenStream} {e : Expr}
    {links behind : List Token} (he : e.Grouped) (hroot : ∀ q ∈ e.root?, minimum ≤ q.precedence)
    (hlinks : Links links) (hs : s.ahead = links ++ behind)
    (hstops : ∀ t ∈ (links ++ behind).head?, ∀ op ∈ binaryOp? t, op.precedence < minimum)
    (hstops' : ∀ t ∈ links.head?, ∀ op ∈ binaryOp? t, op.precedence < minimum) :
    Climbs (readTail (k + 1) minimum e) minimum e.inOrder links behind s := by
  refine ⟨e, links, s, ⟨he, hroot, rfl, hlinks, Nat.le_refl _, hstops'⟩, hs, ?_⟩
  have hcurrent : (links ++ behind).head? = some s.current := by rw [← hs]; rfl
  rw [readTail, Grammar.operators, outcome_bind, outcome_current, ok_bind]
  cases hop : binaryOp? s.current with
  | none => rfl
  | some op =>
    simp only [if_pos (hstops _ hcurrent op hop)]
    rfl

theorem readTail_climbs {k : Nat} (hfrom : FromClimbs k) (htail : TailClimbs k) :
    TailClimbs (k + 1) := by
  intro minimum s e ending links rest he hroot hnext hlinks hend hs hk
  cases hlinks with
  | nil =>
    refine readTail_stops he hroot .nil hs ?_ (by simp)
    simp [hend.binaryOp?]
  | @cons operator operand links hop hoperand hlinks =>
    obtain ⟨op, hop⟩ := Option.isSome_iff_exists.1 hop
    by_cases hlt : op.precedence < minimum
    · have hstops : ∀ p ∈ binaryOp? operator, p.precedence < minimum := by simpa [hop] using hlt
      exact readTail_stops he hroot (.cons (by rw [hop]; rfl) hoperand hlinks) hs
        (by simpa using hstops) (by simpa using hstops)
    · simp only [List.length_cons] at hk
      obtain ⟨_, t, -, ht, hmove⟩ :=
        Takes.next (show s.ahead = operator :: operand :: (links ++ ending :: rest) from hs)
      obtain ⟨right, left, u, hright, hu, hread⟩ :=
        hfrom op.rightMinimum t operand ending links rest hoperand hlinks hend ht (by omega)
      have hbinary : Grouped (binary operator.line op e right) :=
        .binary (fun q hq => hnext operator rfl op hop q hq)
          (fun q hq => rightMinimum_le_iff.1 (hright.root q hq)) he hright.grouped
      have hlength := hright.length_le
      obtain ⟨whole, others, v, hwhole, hv, hmore⟩ :=
        htail minimum u (binary operator.line op e right) ending left rest hbinary
          (by simpa using hlt)
          (by
            -- The right operand ended in front of an operator that takes this tree.
            intro t ht p hp q hq
            obtain rfl : op = q := by simpa using hq
            exact lt_rightMinimum_iff.1 (hright.stops t ht p hp))
          hright.rest hend hu (by omega)
      have hlisted : e.inOrder ++ operator :: operand :: links = whole.inOrder ++ others := by
        rw [← hwhole.inOrder, Expr.inOrder, ← eq_of_binaryOp? hop, List.append_assoc,
          List.cons_append, ← hright.inOrder]
        rfl
      refine ⟨whole, others, v, ⟨hwhole.grouped, hwhole.root, hlisted, hwhole.rest, ?_,
        hwhole.stops⟩, hv, ?_⟩
      · have := hwhole.length_le
        simp only [List.length_cons]
        omega
      · have hcurrent : s.current = operator := (List.cons.inj hs).1
        rw [readTail, Grammar.operators, outcome_bind, outcome_current, ok_bind, hcurrent]
        simp only [hop, if_neg hlt]
        rw [outcome_bind, hmove, ok_bind, outcome_bind, hread, ok_bind, hmore]

theorem climbs (k : Nat) : FromClimbs k ∧ TailClimbs k := by
  induction k with
  | zero =>
    constructor
    · intro minimum s first ending links rest hfirst hlinks hend hs hk
      omega
    · intro minimum s e ending links rest he hroot hnext hlinks hend hs hk
      omega
  | succ k ih => exact ⟨readFrom_climbs ih.2, readTail_climbs ih.1 ih.2⟩

/-- From a chain of operands and operators, with a token behind it that is neither an operator nor
punctuation, a read takes exactly the chain, and gives the only tree that lists the chain in order
and in which all operators agree. -/
theorem read_chain {s : TokenStream} {first ending : Token} {links rest : List Token}
    (hfirst : IsOperand first) (hlinks : Links links) (hend : EndsChain ending)
    (hs : s.ahead = first :: (links ++ ending :: rest)) :
    ∃ e t, outcome read s = .ok (e, t) ∧ t.ahead = ending :: rest ∧
      e.Grouped ∧ e.inOrder = first :: links ∧
      ∀ e' : Expr, e'.Grouped → e'.inOrder = first :: links → e' = e := by
  have hafter : s.after = links ++ ending :: rest := (List.cons.inj hs).2
  have hsteps : links.length + 3 ≤ stepLimit s.after.length := by
    rw [hafter, stepLimit, List.length_append, List.length_cons]
    omega
  obtain ⟨e, left, t, hclimbed, ht, hread⟩ :=
    (climbs _).1 0 s first ending links rest hfirst hlinks hend hs hsteps
  have hleft : left = [] := by
    cases hclimbed.rest with
    | nil => rfl
    | cons hop _ _ =>
      obtain ⟨op, hop⟩ := Option.isSome_iff_exists.1 hop
      exact absurd (hclimbed.stops _ rfl op hop) (Nat.not_lt_zero _)
  have hlisted : e.inOrder = first :: links := by
    have := hclimbed.inOrder
    rw [hleft, List.append_nil] at this
    exact this.symm
  subst hleft
  refine ⟨e, t, ?_, ht, hclimbed.grouped, hlisted, fun e' he' heq => ?_⟩
  · rw [read, outcome_bind, outcome_get, ok_bind]
    exact hread
  · exact he'.eq_of_inOrder hclimbed.grouped (heq.trans hlisted.symm)

/-- Differences are grouped from the left and powers from the right, and both bind more tightly than
`or`. -/
theorem read_chain_mixed :
    let s : TokenStream := ⟨[], ⟨.name, "a", 1⟩,
      [⟨.operator, "-", 1⟩, ⟨.name, "b", 1⟩, ⟨.operator, "-", 1⟩, ⟨.name, "c", 1⟩,
        ⟨.operator, "**", 1⟩, ⟨.name, "d", 2⟩, ⟨.operator, "**", 2⟩, ⟨.name, "e", 2⟩,
        ⟨.operator, "or", 2⟩, ⟨.name, "f", 3⟩, ⟨.varEnd, "\x7d\x7d", 3⟩, ⟨.eof, "", 3⟩], "page"⟩
    let tree := binary 2 .or
      (binary 1 .sub (binary 1 .sub (name 1 "a") (name 1 "b"))
        (binary 1 .pow (name 1 "c") (binary 2 .pow (name 2 "d") (name 2 "e")))) (name 3 "f")
    ∃ t, outcome read s = .ok (tree, t) ∧ t.ahead = [⟨.varEnd, "\x7d\x7d", 3⟩, ⟨.eof, "", 3⟩] ∧
      tree.Grouped := by
  intro s tree
  have hlinks : Links (s.after.take 10) :=
    .cons rfl ⟨rfl, by decide⟩ <| .cons rfl ⟨rfl, by decide⟩ <| .cons rfl ⟨rfl, by decide⟩ <|
      .cons rfl ⟨rfl, by decide⟩ <| .cons rfl ⟨rfl, by decide⟩ .nil
  have hdifference : Grouped (binary 1 .sub (name 1 "a") (name 1 "b")) :=
    .binary (by decide) (by decide) (.name _ _) (.name _ _)
  have hpower : Grouped (binary 1 .pow (name 1 "c") (binary 2 .pow (name 2 "d") (name 2 "e"))) :=
    .binary (by decide) (by decide) (.name _ _)
      (.binary (by decide) (by decide) (.name _ _) (.name _ _))
  have htree : tree.Grouped :=
    .binary (by decide) (by decide) (.binary (by decide) (by decide) hdifference hpower) (.name _ _)
  have hs : s.ahead =
      s.current :: (s.after.take 10 ++ ⟨.varEnd, "\x7d\x7d", 3⟩ :: [⟨.eof, "", 3⟩]) := rfl
  obtain ⟨e, t, hread, ht, -, -, hunique⟩ :=
    read_chain ⟨rfl, by decide⟩ hlinks ⟨by decide, by decide⟩ hs
  obtain rfl := hunique tree htree rfl
  exact ⟨t, hread, ht, htree⟩

end Expr

end TemplateEngine
