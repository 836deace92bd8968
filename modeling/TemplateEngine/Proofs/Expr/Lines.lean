import TemplateEngine.Expr.Parser
import TemplateEngine.Proofs.Document.Expressions
import TemplateEngine.Proofs.Lines

/-!
The lines of expressions. Main statement: an expression that is read from tokens on the lines of a
template has all its parts on these lines; where there is none, the error is on one of them. The
step limit does not run out.
-/

namespace TemplateEngine

/-- All of these expressions have lines of a template that has `last` lines. -/
def ExprsOnLines (last : Nat) (exprs : List Expr) : Prop :=
  ∀ part ∈ exprs, IsLine last part.line

@[simp] theorem exprsOnLines_nil (last : Nat) : ExprsOnLines last [] := by
  intro part hpart
  simp at hpart

@[simp] theorem exprsOnLines_cons {last : Nat} {expr : Expr} {exprs : List Expr} :
    ExprsOnLines last (expr :: exprs) ↔ IsLine last expr.line ∧ ExprsOnLines last exprs :=
  List.forall_mem_cons

@[simp] theorem exprsOnLines_append {last : Nat} {exprs more : List Expr} :
    ExprsOnLines last (exprs ++ more) ↔ ExprsOnLines last exprs ∧ ExprsOnLines last more :=
  List.forall_mem_append

namespace Expr

open TokenReader TokenStream.InLines

/-- An expression with all its parts on lines of a template that has `last` lines. -/
def InLines (last : Nat) (expr : Expr) : Prop :=
  ExprsOnLines last expr.parts

/-- Expressions with all their parts on lines of a template that has `last` lines. -/
def AllInLines (last : Nat) (exprs : List Expr) : Prop :=
  ExprsOnLines last (partsOfExprs exprs)

variable {last line : Nat}

theorem AllInLines.cons {expr : Expr} {exprs : List Expr} (h : expr.InLines last)
    (hrest : AllInLines last exprs) : AllInLines last (expr :: exprs) := by
  rw [AllInLines, partsOfExprs, exprsOnLines_append]
  exact ⟨h, hrest⟩

theorem AllInLines.nil : AllInLines last [] := by
  simp [AllInLines, partsOfExprs]

/-- An expression that has no others inside of it. -/
theorem inLines_leaf {expr : Expr} (hleaf : expr.parts = [expr]) (hline : IsLine last expr.line) :
    expr.InLines last := by
  rw [InLines, hleaf, exprsOnLines_cons]
  exact ⟨hline, exprsOnLines_nil last⟩

theorem inLines_array {items : List Expr} (hline : IsLine last line)
    (h : AllInLines last items) : (array line items).InLines last := by
  rw [InLines, parts, exprsOnLines_cons]
  exact ⟨hline, h⟩

theorem inLines_attr {object : Expr} (hline : IsLine last line) (h : object.InLines last)
    (member : String) : (attr line object member).InLines last := by
  rw [InLines, parts, exprsOnLines_cons]
  exact ⟨hline, h⟩

theorem inLines_item {object index : Expr} (hline : IsLine last line)
    (hobject : object.InLines last) (hindex : index.InLines last) :
    (item line object index).InLines last := by
  rw [InLines, parts, exprsOnLines_cons, exprsOnLines_append]
  exact ⟨hline, hobject, hindex⟩

theorem inLines_unary {operand : Expr} (hline : IsLine last line) (op : UnaryOp)
    (h : operand.InLines last) : (unary line op operand).InLines last := by
  rw [InLines, parts, exprsOnLines_cons]
  exact ⟨hline, h⟩

theorem inLines_binary {left right : Expr} (hline : IsLine last line) (op : BinaryOp)
    (hleft : left.InLines last) (hright : right.InLines last) :
    (binary line op left right).InLines last := by
  rw [InLines, parts, exprsOnLines_cons, exprsOnLines_append]
  exact ⟨hline, hleft, hright⟩

theorem inLines_filter {input : Expr} {args : List Expr} (hline : IsLine last line)
    (name : String) (hinput : input.InLines last) (hargs : AllInLines last args) :
    (filter line name input args).InLines last := by
  rw [InLines, parts, exprsOnLines_cons, exprsOnLines_append]
  exact ⟨hline, hinput, hargs⟩

theorem inLines_ofName (hline : IsLine last line) (word : String) :
    (ofName line word).InLines last := by
  unfold ofName
  split
  · exact inLines_leaf rfl hline
  split
  · exact inLines_leaf rfl hline
  split
  · exact inLines_leaf rfl hline
  · exact inLines_leaf rfl hline

theorem inLines_foldl {parts : List Expr} {first : Expr} (hline : IsLine last line)
    (hfirst : first.InLines last) (h : AllInLines last parts) :
    (parts.foldl (fun left right => binary line .concat left right) first).InLines last := by
  induction parts generalizing first with
  | nil => exact hfirst
  | cons part parts ih =>
    rw [AllInLines, partsOfExprs, exprsOnLines_append] at h
    exact ih (inLines_binary hline .concat hfirst h.1) h.2

theorem inLines_concatAll {parts : List Expr} (hline : IsLine last line)
    (h : AllInLines last parts) : (concatAll line parts).InLines last := by
  cases parts with
  | nil => exact inLines_leaf rfl hline
  | cons first rest =>
    rw [AllInLines, partsOfExprs, exprsOnLines_append] at h
    exact inLines_foldl hline h.1 h.2

/-- With tokens on lines of the template ahead and at most `n` of them behind the current one, the
read gives a result with the property and leaves such tokens ahead, if it has `6 * n + extra` steps;
where it fails, the fault is on a line of the template. -/
def KeepsLines {α : Type} (last steps extra : Nat) (reader : TokenReader α) (P : α → Prop) : Prop :=
  ∀ n s, s.InLines last n → 6 * n + extra ≤ steps →
    GivesIn last reader s fun a t => P a ∧ t.InLines last n

structure AllKeepLines (last k : Nat) : Prop where
  readFrom (minimum : Nat) : KeepsLines last k 4 (readFrom k minimum) (InLines last)
  readTail (minimum : Nat) {left : Expr} (h : left.InLines last) :
    KeepsLines last k 1 (readTail k minimum left) (InLines last)
  readOperand : KeepsLines last k 3 (readOperand k) (InLines last)
  readPrimary : KeepsLines last k 2 (readPrimary k) (InLines last)
  readParts (plainMayFollow : Bool) :
    KeepsLines last k 1 (readParts k plainMayFollow) (AllInLines last)
  readItems (isFirst : Bool) :
    KeepsLines last k (if isFirst then 5 else 1) (readItems k isFirst) (AllInLines last)
  readArguments (isFirst : Bool) :
    KeepsLines last k (if isFirst then 5 else 1) (readArguments k isFirst) (AllInLines last)
  readPostfix {object : Expr} (h : object.InLines last) :
    KeepsLines last k 1 (readPostfix k object) (InLines last)

variable {k n : Nat} {s : TokenStream} {α : Type} {P : α → Prop}

/-- A read that goes on behind some of the tokens. -/
theorem KeepsLines.behind {m steps extra : Nat} {reader : TokenReader α}
    (h : KeepsLines last steps extra reader P) (hs : s.InLines last m)
    (hsteps : 6 * m + extra ≤ steps) (hmn : m ≤ n) :
    GivesIn last reader s fun a t => P a ∧ t.InLines last n :=
  (h m s hs hsteps).mono fun _ _ ⟨ha, ht⟩ => ⟨ha, ht.mono hmn⟩

theorem readFrom_keepsLines (h : AllKeepLines last k) (minimum : Nat) :
    KeepsLines last (k + 1) 4 (readFrom (k + 1) minimum) (InLines last) := by
  intro n s hs hk
  rw [readFrom, Grammar.expression]
  apply (h.readOperand n s hs (by omega)).bind
  rintro left s ⟨hleft, hs⟩
  exact h.readTail minimum hleft n s hs (by omega)

theorem readTail_keepsLines (h : AllKeepLines last k) (minimum : Nat) {left : Expr}
    (hleft : left.InLines last) :
    KeepsLines last (k + 1) 1 (readTail (k + 1) minimum left) (InLines last) := by
  intro n s hs hk
  rw [readTail, Grammar.operators]
  apply gives_current
  split
  · exact .pure ⟨hleft, hs⟩
  · next op _ =>
    split
    · exact .pure ⟨hleft, hs⟩
    · have hline := hs.current
      apply hs.gives_next.bind
      rintro _ s ⟨-, hn, hs⟩
      apply (h.readFrom op.rightMinimum (n - 1) s hs (by omega)).bind
      rintro right s ⟨hright, hs⟩
      exact (h.readTail minimum (inLines_binary hline op hleft hright)).behind hs (by omega)
        (by omega)

theorem readOperand_keepsLines (h : AllKeepLines last k) :
    KeepsLines last (k + 1) 3 (readOperand (k + 1)) (InLines last) := by
  intro n s hs hk
  rw [readOperand, Grammar.operand]
  apply gives_current
  split
  · next op _ =>
    have hline := hs.current
    apply hs.gives_next.bind
    rintro _ s ⟨-, hn, hs⟩
    apply (h.readFrom op.precedence (n - 1) s hs (by omega)).bind
    rintro operand s ⟨hoperand, hs⟩
    exact .pure ⟨inLines_unary hline op hoperand, hs.mono (by omega)⟩
  · apply (h.readPrimary n s hs (by omega)).bind
    rintro primary s ⟨hprimary, hs⟩
    exact h.readPostfix hprimary n s hs (by omega)

theorem readNumber_gives (hs : s.InLines last n) :
    GivesIn last readNumber s fun a t => a.InLines last ∧ t.InLines last n := by
  unfold readNumber
  apply hs.gives_next.bind
  rintro token s ⟨hline, -, hs⟩
  split
  · exact .pure ⟨inLines_leaf rfl hline, hs.mono (by omega)⟩
  · exact gives_fail s ⟨hline, by simp⟩

theorem readPrimary_keepsLines (h : AllKeepLines last k) :
    KeepsLines last (k + 1) 2 (readPrimary (k + 1)) (InLines last) := by
  intro n s hs hk
  rw [readPrimary, Grammar.primary]
  apply gives_current
  have hline := hs.current
  have hparts : GivesIn last
      (readParts k true >>= fun parts => pure (concatAll s.current.line parts)) s
      (fun a t => a.InLines last ∧ t.InLines last n) := by
    apply (h.readParts true n s hs (by omega)).bind
    rintro parts s ⟨hparts, hs⟩
    exact .pure ⟨inLines_concatAll hline hparts, hs⟩
  split
  · apply hs.gives_next.bind
    rintro _ s ⟨-, -, hs⟩
    exact .pure ⟨inLines_ofName hline _, hs.mono (by omega)⟩
  · exact readNumber_gives hs
  · exact hparts
  · exact hparts
  · split
    · apply hs.gives_next.bind
      rintro _ s ⟨-, hn, hs⟩
      apply (h.readFrom 0 (n - 1) s hs (by omega)).bind
      rintro inner s ⟨hinner, hs⟩
      apply (hs.gives_expect .punctuation (some ")")).bind
      rintro _ s ⟨-, -, hs⟩
      exact .pure ⟨hinner, hs.mono (by omega)⟩
    · split
      · apply hs.gives_next.bind
        rintro _ s ⟨-, hn, hs⟩
        apply (h.readItems true (n - 1) s hs (by simp only [if_true]; omega)).bind
        rintro items s ⟨hitems, hs⟩
        apply (hs.gives_expect .punctuation (some "]")).bind
        rintro _ s ⟨-, -, hs⟩
        exact .pure ⟨inLines_array hline hitems, hs.mono (by omega)⟩
      · exact gives_fail s ⟨hline, by simp⟩

theorem readParts_keepsLines (h : AllKeepLines last k) (plainMayFollow : Bool) :
    KeepsLines last (k + 1) 1 (readParts (k + 1) plainMayFollow) (AllInLines last) := by
  intro n s hs hk
  have hinterpolation : ∀ s, s.InLines last n →
      GivesIn last (readParts (k + 1) false) s
        fun a t => AllInLines last a ∧ t.InLines last n := by
    intro s hs
    rw [readParts, Grammar.parts]
    apply (hs.gives_nextIf .interpolationStart none).bind
    rintro (_ | token) s hs
    · exact .pure ⟨.nil, hs⟩
    · obtain ⟨-, hn, hs⟩ := hs
      apply (h.readFrom 0 (n - 1) s hs (by omega)).bind
      rintro inner s ⟨hinner, hs⟩
      apply (hs.gives_expect .interpolationEnd none).bind
      rintro _ s ⟨-, hn', hs⟩
      apply (h.readParts true (n - 1 - 1) s hs (by omega)).bind
      rintro parts s ⟨hparts, hs⟩
      exact .pure ⟨hparts.cons hinner, hs.mono (by omega)⟩
  cases plainMayFollow with
  | false => exact hinterpolation s hs
  | true =>
    rw [readParts, Grammar.parts]
    apply (hs.gives_nextIf .string none).bind
    rintro (_ | token) s hs
    · have hnone := hinterpolation s hs
      rw [readParts, Grammar.parts] at hnone
      exact hnone
    · obtain ⟨hline, hn, hs⟩ := hs
      apply (h.readParts false (n - 1) s hs (by omega)).bind
      rintro parts s ⟨hparts, hs⟩
      exact .pure ⟨hparts.cons (inLines_leaf rfl hline), hs.mono (by omega)⟩

theorem readItems_keepsLines (h : AllKeepLines last k) (isFirst : Bool) :
    KeepsLines last (k + 1) (if isFirst then 5 else 1) (readItems (k + 1) isFirst)
      (AllInLines last) := by
  intro n s hs hk
  rw [readItems, Grammar.items]
  have hitem : ∀ m s, s.InLines last m → m ≤ n → 6 * m + 4 ≤ k →
      GivesIn last
        (do
          if ← test .punctuation (some "]") then return []
          else
            let item ← readFrom k 0
            let items ← readItems k false
            return item :: items) s
        fun a t => AllInLines last a ∧ t.InLines last n := by
    intro m s hs hmn hk
    apply gives_test
    intro found
    split
    · exact .pure ⟨.nil, hs.mono hmn⟩
    · apply (h.readFrom 0 m s hs (by omega)).bind
      rintro item s ⟨hitem, hs⟩
      apply (h.readItems false m s hs (by simp; omega)).bind
      rintro items s ⟨hitems, hs⟩
      exact .pure ⟨hitems.cons hitem, hs.mono hmn⟩
  apply gives_test
  intro found
  split
  · exact .pure ⟨.nil, hs⟩
  · cases isFirst with
    | true =>
      rw [if_pos rfl] at hk
      exact hitem n s hs (by omega) (by omega)
    | false =>
      rw [if_neg (by simp)] at hk
      apply (hs.gives_expect .punctuation (some ",")).bind
      rintro _ s ⟨-, hn, hs⟩
      exact hitem (n - 1) s hs (by omega) (by omega)

theorem readArguments_keepsLines (h : AllKeepLines last k) (isFirst : Bool) :
    KeepsLines last (k + 1) (if isFirst then 5 else 1) (readArguments (k + 1) isFirst)
      (AllInLines last) := by
  intro n s hs hk
  rw [readArguments, Grammar.arguments]
  have hargument : ∀ m s, s.InLines last m → m ≤ n → 6 * m + 4 ≤ k →
      GivesIn last
        (do
          let arg ← readFrom k 0
          let args ← readArguments k false
          return arg :: args) s
        fun a t => AllInLines last a ∧ t.InLines last n := by
    intro m s hs hmn hk
    apply (h.readFrom 0 m s hs (by omega)).bind
    rintro arg s ⟨harg, hs⟩
    apply (h.readArguments false m s hs (by simp; omega)).bind
    rintro args s ⟨hargs, hs⟩
    exact .pure ⟨hargs.cons harg, hs.mono hmn⟩
  apply gives_test
  intro found
  split
  · exact .pure ⟨.nil, hs⟩
  · cases isFirst with
    | true =>
      rw [if_pos rfl] at hk
      exact hargument n s hs (by omega) (by omega)
    | false =>
      rw [if_neg (by simp)] at hk
      apply (hs.gives_expect .punctuation (some ",")).bind
      rintro _ s ⟨-, hn, hs⟩
      exact hargument (n - 1) s hs (by omega) (by omega)

theorem readMember_gives (hs : s.InLines last n) :
    GivesIn last readMember s fun _ t => t.InLines last n := by
  unfold readMember
  apply gives_current
  split
  · apply hs.gives_next.bind
    rintro _ s ⟨-, -, hs⟩
    exact .pure (hs.mono (by omega))
  · exact gives_fail s ⟨hs.current, by simp⟩

theorem readPostfix_keepsLines (h : AllKeepLines last k) {object : Expr}
    (hobject : object.InLines last) :
    KeepsLines last (k + 1) 1 (readPostfix (k + 1) object) (InLines last) := by
  intro n s hs hk
  rw [readPostfix, Grammar.accesses]
  apply gives_current
  have hline := hs.current
  split
  · apply hs.gives_next.bind
    rintro _ s ⟨-, hpoint, hs⟩
    apply (readMember_gives hs).bind
    intro member s hs
    exact (h.readPostfix (inLines_attr hline hobject member)).behind hs (by omega) (by omega)
  split
  · apply hs.gives_next.bind
    rintro _ s ⟨-, hopen, hs⟩
    apply (h.readFrom 0 (n - 1) s hs (by omega)).bind
    rintro index s ⟨hindex, hs⟩
    apply (hs.gives_expect .punctuation (some "]")).bind
    rintro _ s ⟨-, hclose, hs⟩
    exact (h.readPostfix (inLines_item hline hobject hindex)).behind hs (by omega) (by omega)
  split
  · apply hs.gives_next.bind
    rintro _ s ⟨-, hbar, hs⟩
    apply (hs.gives_expect .name none).bind
    rintro name s ⟨-, hname, hs⟩
    apply gives_test
    intro found
    split
    · apply hs.gives_next.bind
      rintro _ s ⟨-, hopen, hs⟩
      apply (h.readArguments true _ s hs (by simp only [if_true]; omega)).bind
      rintro args s ⟨hargs, hs⟩
      apply (hs.gives_expect .punctuation (some ")")).bind
      rintro _ s ⟨-, hclose, hs⟩
      exact (h.readPostfix (inLines_filter hline name.value hobject hargs)).behind hs (by omega)
        (by omega)
    · exact (h.readPostfix (inLines_filter hline name.value hobject .nil)).behind hs (by omega)
        (by omega)
  · exact .pure ⟨hobject, hs⟩

/-- Without steps there is nothing to show. -/
theorem keepsLines_of_zero {extra : Nat} (reader : TokenReader α) (hextra : 0 < extra) :
    KeepsLines last 0 extra reader P := by
  intro n s _ hk
  omega

theorem allKeepLines (last k : Nat) : AllKeepLines last k := by
  induction k with
  | zero =>
    exact
      { readFrom := fun _ => keepsLines_of_zero _ (by omega)
        readTail := fun _ _ _ => keepsLines_of_zero _ (by omega)
        readOperand := keepsLines_of_zero _ (by omega)
        readPrimary := keepsLines_of_zero _ (by omega)
        readParts := fun _ => keepsLines_of_zero _ (by omega)
        readItems := fun isFirst => keepsLines_of_zero _ (by split <;> omega)
        readArguments := fun isFirst => keepsLines_of_zero _ (by split <;> omega)
        readPostfix := fun _ => keepsLines_of_zero _ (by omega) }
  | succ k ih =>
    exact
      { readFrom := readFrom_keepsLines ih
        readTail := fun minimum _ hleft => readTail_keepsLines ih minimum hleft
        readOperand := readOperand_keepsLines ih
        readPrimary := readPrimary_keepsLines ih
        readParts := readParts_keepsLines ih
        readItems := readItems_keepsLines ih
        readArguments := readArguments_keepsLines ih
        readPostfix := fun hobject => readPostfix_keepsLines ih hobject }

/-- The expression that is read from tokens on the lines of a template, or the fault that there is
instead, is on these lines. -/
theorem read_gives (hs : s.InLines last n) :
    GivesIn last read s fun a t => a.InLines last ∧ t.InLines last n := by
  have hread := (allKeepLines last (stepLimit s.after.length)).readFrom 0
  have hlength : s.InLines last s.after.length := ⟨hs.ahead, Nat.le_refl _⟩
  unfold read
  apply Gives.get_bind
  exact hread.behind hlength (by unfold stepLimit; omega) hs.length

end Expr

end TemplateEngine
