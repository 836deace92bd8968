import TemplateEngine.Proofs.Document.Comments
import TemplateEngine.Proofs.Expr.Lines

/-!
The lines of documents. Main statement: a document that is read from tokens on the lines of a
template has all its expressions on these lines; where there is none, the error is on one of them.
This holds for every set of tags, and the step limit does not run out.
-/

namespace TemplateEngine

namespace Document

open TokenReader TokenStream.InLines

/-- Nodes with all their expressions on lines of a template that has `last` lines. -/
def NodesInLines (last : Nat) (nodes : List Node) : Prop :=
  ExprsOnLines last (exprsOfNodes nodes)

/-- Branches, and the last body if there is one, with all their expressions on such lines. -/
def BranchesInLines (last : Nat) (branches : List Branch) (otherwise : Option (List Node)) : Prop :=
  ExprsOnLines last (exprsOfBranches branches) ∧ ExprsOnLines last (exprsOfBody otherwise)

variable {last n k : Nat} {s : ParserState} {α β : Type} {tags : TagSet}

theorem nodesInLines_nil : NodesInLines last [] := by
  simp [NodesInLines, exprsOfNodes]

theorem nodesInLines_cons {node : Node} {nodes : List Node} (h : ExprsOnLines last node.exprs)
    (hrest : NodesInLines last nodes) : NodesInLines last (node :: nodes) := by
  rw [NodesInLines, exprsOfNodes, exprsOnLines_append]
  exact ⟨h, hrest⟩

theorem branchesInLines_cons {condition : Expr} {body : List Node} {branches : List Branch}
    {otherwise : Option (List Node)} (hcondition : condition.InLines last)
    (hbody : NodesInLines last body) (hrest : BranchesInLines last branches otherwise) :
    BranchesInLines last (.mk condition body :: branches) otherwise := by
  rw [BranchesInLines, exprsOfBranches, exprsOnLines_append, exprsOnLines_append]
  exact ⟨⟨hcondition, hbody, hrest.1⟩, hrest.2⟩

theorem exprsOnLines_choice {line : Nat} {branches : List Branch} {otherwise : Option (List Node)}
    (h : BranchesInLines last branches otherwise) :
    ExprsOnLines last (Node.choice line branches otherwise).exprs := by
  rw [Node.exprs, exprsOnLines_append]
  exact h

theorem exprsOnLines_loop {line : Nat} {key : Option String} {target : String} {iterable : Expr}
    {body : List Node} {otherwise : Option (List Node)} (hiterable : iterable.InLines last)
    (hbody : NodesInLines last body) (hotherwise : ExprsOnLines last (exprsOfBody otherwise)) :
    ExprsOnLines last (Node.loop line key target iterable body otherwise).exprs := by
  rw [Node.exprs, exprsOnLines_append, exprsOnLines_append]
  exact ⟨hiterable, hbody, hotherwise⟩

theorem gives_lift_fail {fault : SyntaxFault} {line : Nat} {Q : α → ParserState → Prop}
    (h : FaultAt last fault line) : GivesIn last (lift (fail fault line)) s Q :=
  (gives_lift (gives_fail (Q := fun _ _ => False) s.stream h)).mono fun _ _ h => h.elim

def TakenFrom (last n : Nat) (token : Token) (s : ParserState) : Prop :=
  Taken last n token s.stream

theorem gives_lift_next (hs : s.stream.InLines last n) :
    GivesIn last (lift next) s (TakenFrom last n) :=
  gives_lift hs.gives_next

theorem gives_lift_expect (hs : s.stream.InLines last n) (kind : TokenKind)
    (value? : Option String) :
    GivesIn last (lift (expect kind value?)) s (TakenFrom last n) :=
  gives_lift (hs.gives_expect kind value?)

theorem gives_lift_read (hs : s.stream.InLines last n) :
    GivesIn last (lift Expr.read) s fun expr t =>
      expr.InLines last ∧ t.stream.InLines last n :=
  gives_lift (Expr.read_gives hs)

theorem gives_blockEnd (hs : s.stream.InLines last n) :
    GivesIn last blockEnd s fun _ t =>
      0 < n ∧ t.stream.InLines last (n - 1) := by
  unfold blockEnd
  apply (gives_lift_expect hs .blockEnd none).bind
  rintro _ s ⟨-, hn, hs⟩
  exact .pure ⟨hn, hs⟩

theorem gives_lastExpression (hs : s.stream.InLines last n) :
    GivesIn last lastExpression s fun expr t =>
      expr.InLines last ∧ 0 < n ∧ t.stream.InLines last (n - 1) := by
  unfold lastExpression
  apply (gives_lift_read hs).bind
  rintro expr s ⟨hexpr, hs⟩
  apply (gives_blockEnd hs).bind
  rintro _ s hs
  exact .pure ⟨hexpr, hs⟩

theorem gives_defineBlock (hs : s.stream.InLines last n) (name : String) {line : Nat}
    (hline : IsLine last line) :
    GivesIn last (defineBlock name line) s fun _ t =>
      t.stream.InLines last n := by
  unfold defineBlock
  apply Gives.get_bind
  split
  · next defined _ =>
    have hfault : FaultAt last (.duplicateBlock name defined) line := ⟨hline, by simp⟩
    exact gives_lift_fail hfault
  · exact .ok hs

theorem gives_readLoopNames {s : TokenStream} (hs : s.InLines last n) :
    GivesIn last readLoopNames s fun _ t => t.InLines last n := by
  unfold readLoopNames
  apply (hs.gives_expect .name none).bind
  rintro first s ⟨-, -, hs⟩
  have hin : ∀ (names : Option String × String) s, s.InLines last n →
      GivesIn last
        (do
          let _ ← expect .operator (some "in")
          return names) s fun _ t => t.InLines last n := by
    intro names s hs
    apply (hs.gives_expect .operator (some "in")).bind
    rintro _ s ⟨-, -, hs⟩
    exact .pure (hs.mono (by omega))
  apply (hs.gives_nextIf .punctuation (some ",")).bind
  rintro (_ | comma) s hs
  · exact hin _ s (hs.mono (by omega))
  · obtain ⟨-, -, hs⟩ := hs
    apply (hs.gives_expect .name none).bind
    rintro target s ⟨-, -, hs⟩
    exact hin _ s (hs.mono (by omega))

theorem gives_readEndName {s : TokenStream} (hs : s.InLines last n) (name : String) :
    GivesIn last (readEndName name) s fun _ t => t.InLines last n := by
  unfold readEndName
  apply (hs.gives_nextIf .name none).bind
  rintro (_ | given) s hs
  · exact .pure hs
  · obtain ⟨hline, -, hs⟩ := hs
    simp only
    split
    · exact .pure (hs.mono (by omega))
    · exact gives_fail s ⟨hline, by simp⟩

/-- The text of an exposed comment is put where a lexed comment has its text. -/
theorem inLines_inject {s : TokenStream} (hs : s.InLines last n) {token : Token}
    (hline : IsLine last token.line) : (s.inject [token]).InLines last (n + 1) where
  ahead := by
    intro t ht
    rcases List.mem_cons.1 ht with rfl | ht
    · exact hs.current
    rcases List.mem_cons.1 ht with rfl | ht
    · exact hline
    · exact hs.ahead t (List.mem_cons_of_mem _ ht)
  length := Nat.succ_le_succ hs.length

theorem gives_readComment {s : TokenStream} (hs : s.InLines last n) :
    GivesIn last readComment s fun node t =>
      ExprsOnLines last node.exprs ∧ t.InLines last n := by
  unfold readComment
  apply gives_current
  have hrest : ∀ (line : Nat) (exposed : Bool) s, s.InLines last n →
      GivesIn last
        (do
          let text ← expect .text none
          let _ ← expect .blockEnd none
          return Node.comment line text.value exposed) s
        fun node t => ExprsOnLines last node.exprs ∧ t.InLines last n := by
    intro line exposed s hs
    apply (hs.gives_expect .text none).bind
    rintro text s ⟨-, -, hs⟩
    apply (hs.gives_expect .blockEnd none).bind
    rintro _ s ⟨-, -, hs⟩
    exact .pure ⟨by simp [Node.exprs], hs.mono (by omega)⟩
  simp only
  split
  · apply Gives.modify_bind
    have hinjected : (s.inject [⟨.text, s.current.value, s.current.line⟩]).InLines last (n + 1) :=
      inLines_inject hs hs.current
    apply hinjected.gives_next.bind
    rintro _ s ⟨-, -, hs⟩
    exact hrest _ _ s hs
  · exact hrest _ _ s hs

/-- With tokens on lines of the template ahead and at most `n` of them behind the current one, the
read gives a result with the property and leaves such tokens ahead, if it has more than `3 * n`
steps; where it fails, the fault is on a line of the template. -/
def KeepsLines (last steps : Nat) (reader : Reader α) (P : α → Prop) : Prop :=
  ∀ n s, s.stream.InLines last n → 3 * n < steps →
    GivesIn last reader s fun a t => P a ∧ t.stream.InLines last n

structure AllKeepLines (tags : TagSet) (last k : Nat) : Prop where
  readNodes (ends : List String) (enclosing : Option String) :
    KeepsLines last k (readNodes tags k ends enclosing) (NodesInLines last)
  readTag (tag : Tag) {line : Nat} (hline : IsLine last line) (enclosing : Option String) :
    KeepsLines last k (readTag tags k tag line enclosing) (fun node => ExprsOnLines last node.exprs)
  readBranches (line : Nat) {otherwise : Option (List Node)} (enclosing : Option String)
      (hotherwise : ExprsOnLines last (exprsOfBody otherwise)) :
    KeepsLines last k (readBranches tags k line otherwise enclosing)
      (fun result => BranchesInLines last result.1 result.2)

theorem KeepsLines.behind {m steps : Nat} {reader : Reader α} {P : α → Prop}
    (h : KeepsLines last steps reader P) (hs : s.stream.InLines last m) (hsteps : 3 * m < steps)
    (hmn : m ≤ n) :
    GivesIn last reader s fun a t => P a ∧ t.stream.InLines last n :=
  (h m s hs hsteps).mono fun _ _ ⟨ha, ht⟩ => ⟨ha, ht.mono hmn⟩

theorem readNodes_keepsLines (h : AllKeepLines tags last k) (ends : List String)
    (enclosing : Option String) :
    KeepsLines last (k + 1) (readNodes tags (k + 1) ends enclosing) (NodesInLines last) := by
  intro n s hs hk
  have hcons : ∀ m (node : Node) s, ExprsOnLines last node.exprs → s.stream.InLines last m →
      m < n → GivesIn last
        (do
          let nodes ← readNodes tags k ends enclosing
          return node :: nodes) s
        fun nodes t => NodesInLines last nodes ∧ t.stream.InLines last n := by
    intro m node s hnode hs hmn
    apply (h.readNodes ends enclosing m s hs (by omega)).bind
    rintro nodes s ⟨hnodes, hs⟩
    exact .pure ⟨nodesInLines_cons hnode hnodes, hs.mono (by omega)⟩
  rw [readNodes, Grammar.nodes]
  apply gives_lift_current
  have hline := hs.current
  split
  · split
    · exact .pure ⟨nodesInLines_nil, hs⟩
    · exact gives_lift_fail ⟨hline, by simp⟩
  · apply (gives_lift_next hs).bind
    rintro _ s ⟨-, hn, hs⟩
    exact hcons _ _ s (by simp [Node.exprs]) hs (by omega)
  · apply (gives_lift_next hs).bind
    rintro _ s ⟨-, hn, hs⟩
    apply (gives_lift_read hs).bind
    rintro expr s ⟨hexpr, hs⟩
    apply (gives_lift_expect hs .varEnd none).bind
    rintro _ s ⟨-, hn', hs⟩
    exact hcons _ _ s hexpr hs (by omega)
  · apply (gives_lift_next hs).bind
    rintro _ s ⟨-, hn, hs⟩
    apply gives_lift_current
    have hname := hs.current
    split
    · exact gives_lift_fail ⟨hname, by simp⟩
    split
    · exact .pure ⟨nodesInLines_nil, hs.mono (by omega)⟩
    split
    · exact gives_lift_fail ⟨hname, by simp⟩
    · next tag _ =>
      apply (gives_lift_next hs).bind
      rintro _ s ⟨-, hn', hs⟩
      apply (h.readTag tag hname enclosing _ s hs (by omega)).bind
      rintro node s ⟨hnode, hs⟩
      exact hcons _ node s hnode hs (by omega)
  · exact gives_lift_fail ⟨hline, by simp⟩

theorem readTag_keepsLines (h : AllKeepLines tags last k) (tag : Tag) {line : Nat}
    (hline : IsLine last line) (enclosing : Option String) :
    KeepsLines last (k + 1) (readTag tags (k + 1) tag line enclosing)
      (fun node => ExprsOnLines last node.exprs) := by
  intro n s hs hk
  cases tag with
  | here =>
    rw [readTag, Grammar.tag]
    apply (gives_blockEnd hs).bind
    rintro _ s ⟨-, hs⟩
    exact .pure ⟨by simp [Node.exprs], hs.mono (by omega)⟩
  | comment =>
    rw [readTag, Grammar.tag]
    exact gives_lift (gives_readComment hs)
  | choice =>
    rw [readTag, Grammar.tag]
    apply (gives_lastExpression hs).bind
    rintro condition s ⟨hcondition, hn, hs⟩
    apply (h.readNodes _ enclosing _ s hs (by omega)).bind
    rintro body s ⟨hbody, hs⟩
    apply (h.readBranches line enclosing (by simp [exprsOfBody]) _ s hs (by omega)).bind
    rintro ⟨branches, otherwise⟩ s ⟨hbranches, hs⟩
    apply (gives_blockEnd hs).bind
    rintro _ s ⟨-, hs⟩
    exact .pure ⟨exprsOnLines_choice (branchesInLines_cons hcondition hbody hbranches),
      hs.mono (by omega)⟩
  | loop =>
    rw [readTag, Grammar.tag]
    apply (gives_lift (gives_readLoopNames hs)).bind
    rintro ⟨key, target⟩ s hs
    apply (gives_lastExpression hs).bind
    rintro iterable s ⟨hiterable, hn, hs⟩
    apply (h.readNodes _ enclosing _ s hs (by omega)).bind
    rintro body s ⟨hbody, hs⟩
    apply (gives_lift_next hs).bind
    rintro ending s ⟨-, hn', hs⟩
    have hclose : ∀ (otherwise : Option (List Node)) s,
        ExprsOnLines last (exprsOfBody otherwise) → s.stream.InLines last n →
        GivesIn last
          (do
            blockEnd
            return Node.loop line key target iterable body otherwise) s
          fun node t => ExprsOnLines last node.exprs ∧ t.stream.InLines last n := by
      intro otherwise s hotherwise hs
      apply (gives_blockEnd hs).bind
      rintro _ s ⟨-, hs⟩
      exact .pure ⟨exprsOnLines_loop hiterable hbody hotherwise, hs.mono (by omega)⟩
    split
    · apply (gives_blockEnd hs).bind
      rintro _ s ⟨-, hs⟩
      apply (h.readNodes _ enclosing _ s hs (by omega)).bind
      rintro otherwise s ⟨hotherwise, hs⟩
      apply (gives_lift_next hs).bind
      rintro _ s ⟨-, -, hs⟩
      exact hclose (some otherwise) s hotherwise (hs.mono (by omega))
    · exact hclose none s (by simp [exprsOfBody]) (hs.mono (by omega))
  | block =>
    rw [readTag, Grammar.tag]
    apply (gives_lift_expect hs .name none).bind
    rintro name s ⟨-, hn, hs⟩
    apply (gives_defineBlock hs name.value hline).bind
    intro _ s hs
    have hclose : ∀ (body : List Node) s, NodesInLines last body → s.stream.InLines last n →
        GivesIn last
          (do
            blockEnd
            return Node.block line name.value body) s
          fun node t => ExprsOnLines last node.exprs ∧ t.stream.InLines last n := by
      intro body s hbody hs
      apply (gives_blockEnd hs).bind
      rintro _ s ⟨-, hs⟩
      exact .pure ⟨hbody, hs.mono (by omega)⟩
    apply (gives_lift (gives_test (Q := fun _ t => t.InLines last (n - 1)) fun _ => ?_)).bind
    · rintro found s hs
      split
      · apply (gives_blockEnd hs).bind
        rintro _ s ⟨-, hs⟩
        apply (h.readNodes _ (some name.value) _ s hs (by omega)).bind
        rintro body s ⟨hbody, hs⟩
        apply (gives_lift_next hs).bind
        rintro _ s ⟨-, -, hs⟩
        apply (gives_lift (gives_readEndName hs name.value)).bind
        intro _ s hs
        exact hclose body s hbody (hs.mono (by omega))
      · apply (gives_lift_read hs).bind
        rintro expr s ⟨hexpr, hs⟩
        refine hclose [.print expr.line expr] s ?_ (hs.mono (by omega))
        exact nodesInLines_cons hexpr nodesInLines_nil
    · exact .pure hs

theorem readBranches_keepsLines (h : AllKeepLines tags last k) (line : Nat)
    {otherwise : Option (List Node)} (enclosing : Option String)
    (hotherwise : ExprsOnLines last (exprsOfBody otherwise)) :
    KeepsLines last (k + 1) (readBranches tags (k + 1) line otherwise enclosing)
      (fun result => BranchesInLines last result.1 result.2) := by
  intro n s hs hk
  rw [readBranches, Grammar.branches]
  apply (gives_lift_next hs).bind
  rintro ending s ⟨hline, hn, hs⟩
  split
  · apply (gives_blockEnd hs).bind
    rintro _ s ⟨hn', hs⟩
    apply (h.readNodes _ enclosing _ s hs (by omega)).bind
    rintro body s ⟨hbody, hs⟩
    have hotherwise : ExprsOnLines last (exprsOfBody (some body)) := hbody
    exact (h.readBranches line enclosing hotherwise).behind hs (by omega) (by omega)
  split
  · apply (gives_lastExpression hs).bind
    rintro condition s ⟨hcondition, hn', hs⟩
    apply (h.readNodes _ enclosing _ s hs (by omega)).bind
    rintro body s ⟨hbody, hs⟩
    apply (h.readBranches line enclosing hotherwise _ s hs (by omega)).bind
    rintro ⟨branches, otherwise⟩ s ⟨hbranches, hs⟩
    exact .pure ⟨branchesInLines_cons hcondition hbody hbranches, hs.mono (by omega)⟩
  split
  · exact .pure ⟨⟨by simp [exprsOfBranches], hotherwise⟩, hs.mono (by omega)⟩
  · exact gives_lift_fail ⟨hline, by simp⟩

theorem allKeepLines (tags : TagSet) (last k : Nat) : AllKeepLines tags last k := by
  induction k with
  | zero =>
    exact
      { readNodes := fun _ _ _ _ _ hk => absurd hk (by omega)
        readTag := fun _ _ _ _ _ _ _ hk => absurd hk (by omega)
        readBranches := fun _ _ _ _ _ _ _ hk => absurd hk (by omega) }
  | succ k ih =>
    exact
      { readNodes := readNodes_keepsLines ih
        readTag := fun tag _ hline => readTag_keepsLines ih tag hline
        readBranches := fun line _ => readBranches_keepsLines ih line }

/-- The document that is read from tokens on the lines of a template, or the fault that there is
instead, is on these lines. -/
theorem read_comesTo (tags : TagSet) {stream : TokenStream} (h : OnLines last stream.ahead) :
    ComesTo (SyntaxError.IsIn last) (fun document => ExprsOnLines last document.exprs)
      (read tags stream) := by
  have hstream : stream.InLines last stream.after.length := ⟨h, Nat.le_refl _⟩
  have hread := (allKeepLines tags last (stepLimit stream.after.length)).readNodes [] none
    stream.after.length ⟨stream, []⟩ hstream (by unfold stepLimit; omega)
  rw [read_eq_map]
  exact ComesTo.map hread fun _ hresult => hresult.1

end Document

end TemplateEngine
