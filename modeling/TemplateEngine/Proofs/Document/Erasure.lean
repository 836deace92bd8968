import TemplateEngine.Document.Traced
import TemplateEngine.Proofs.Document.Comments
import TemplateEngine.Proofs.Grammar

/-!
Reading on the record. Main statements: as long as its steps last, a parser that notes its visits
reads as the one that does not, and giving that one more steps changes nothing; each of its routines
notes its visit first, and nothing that has been noted is lost.
-/

namespace TemplateEngine.Document

theorem lift_bind {α β : Type} (reader : TokenReader α) (f : α → TokenReader β) :
    lift (reader >>= f) = lift reader >>= fun a => lift (f a) := by
  funext s
  unfold lift
  simp only [bind, EStateM.bind]
  cases reader s.stream <;> rfl

namespace TracedParser

variable {α β : Type}

def erase : EStateM.Result SyntaxError TracedParser α → EStateM.Result SyntaxError ParserState α
  | .ok a t => .ok a t.parser
  | .error e t => .error e t.parser

def record : EStateM.Result SyntaxError TracedParser α → List (List Visit)
  | .ok _ t => t.log
  | .error _ t => t.log

def Finishes : EStateM.Result SyntaxError TracedParser α → Prop
  | .ok _ _ => True
  | .error e _ => e.fault ≠ .outOfSteps

/-- The read keeps what is on the record and, if it has enough steps, comes to what the other one
does. -/
structure Mirrors {α : Type} (reader : Reader α) (plain : Document.Reader α) : Prop where
  keeps (s : TracedParser) : s.log <:+ record (reader s)
  eq_erase (s : TracedParser) : Finishes (reader s) → plain s.parser = erase (reader s)

theorem keeps_within (reader : Document.Reader α) (s : TracedParser) :
    s.log <:+ record (within reader s) := by
  unfold within
  cases reader s.parser with
  | ok a p => exact List.suffix_refl _
  | error e p => exact List.suffix_refl _

theorem mirrors_within (reader : Document.Reader α) : Mirrors (within reader) reader where
  keeps := keeps_within reader
  eq_erase s _ := by
    unfold within
    cases reader s.parser <;> rfl

/-- A read without steps has failed for want of them. -/
theorem mirrors_stop {plain : Document.Reader α} : Mirrors (lift Expr.stop) plain where
  keeps := keeps_within _
  eq_erase _ hfinishes := absurd rfl hfinishes

theorem Mirrors.pure (a : α) : Mirrors (Pure.pure a) (Pure.pure a) where
  keeps _ := List.suffix_refl _
  eq_erase _ _ := rfl

theorem Mirrors.bind {reader : Reader α} {plain : Document.Reader α} {f : α → Reader β}
    {g : α → Document.Reader β} (h : Mirrors reader plain) (hfg : ∀ a, Mirrors (f a) (g a)) :
    Mirrors (reader >>= f) (plain >>= g) where
  keeps s := by
    have hkeeps := h.keeps s
    change s.log <:+ record (EStateM.bind reader f s)
    unfold EStateM.bind
    cases hread : reader s with
    | ok a t =>
      rw [hread] at hkeeps
      exact hkeeps.trans ((hfg a).keeps t)
    | error e t =>
      rw [hread] at hkeeps
      exact hkeeps
  eq_erase s hfinishes := by
    have heq := h.eq_erase s
    change EStateM.bind plain g s.parser = erase (EStateM.bind reader f s)
    change Finishes (EStateM.bind reader f s) at hfinishes
    unfold EStateM.bind at hfinishes ⊢
    cases hread : reader s with
    | ok a t =>
      rw [hread] at heq hfinishes
      rw [heq trivial]
      exact (hfg a).eq_erase t hfinishes
    | error e t =>
      rw [hread] at heq hfinishes
      rw [heq hfinishes]
      rfl

theorem mirrors_get {f : TracedParser → Reader α} {g : TokenStream → TokenReader α}
    (h : ∀ s, Mirrors (f s) (Document.lift (g s.parser.stream))) :
    Mirrors (get >>= f) (Document.lift (get >>= g)) where
  keeps s := (h s).keeps s
  eq_erase s := (h s).eq_erase s

/-- The read of a routine mirrors the other one. If it has any steps, its visit goes on the record
in front of all that it notes. -/
structure Enters {α : Type} (routine : Routine) (steps : Nat) (reader : List Visit → Reader α)
    (plain : Document.Reader α) : Prop where
  mirrors (trail : List Visit) : Mirrors (reader trail) plain
  records (trail : List Visit) (s : TracedParser) : 0 < steps →
    ((⟨routine, s.parser.stream.position⟩ :: trail) :: s.log) <:+ record (reader trail s)

theorem enters_stop {routine : Routine} {plain : Document.Reader α} :
    Enters routine 0 (fun _ => lift Expr.stop) plain :=
  ⟨fun _ => mirrors_stop, fun _ _ h => absurd h (by decide)⟩

/-- The state behind the visit of a routine. -/
def noted (routine : Routine) (trail : List Visit) (s : TracedParser) : TracedParser :=
  { s with log := (⟨routine, s.parser.stream.position⟩ :: trail) :: s.log }

theorem enters_bind {routine : Routine} {steps : Nat} {f : List Visit → Reader α}
    {plain : Document.Reader α} (h : ∀ trail, Mirrors (f trail) plain) :
    Enters routine steps (fun trail => enter routine trail >>= f) plain where
  mirrors trail :=
    { keeps := fun s => (List.suffix_cons _ s.log).trans ((h _).keeps (noted routine trail s))
      eq_erase := fun s => (h _).eq_erase (noted routine trail s) }
  records trail s _ := (h _).keeps (noted routine trail s)

theorem correspondence_expressions :
    Grammar.Correspondence
      (fun (_ _ : Unit) {_} reader plain => Mirrors reader (Document.lift plain)) lift
      (fun reader => reader) where
  pure _ := ⟨fun _ => List.suffix_refl _, fun _ _ => rfl⟩
  lift reader := mirrors_within (Document.lift reader)
  bind h hfg := by
    rw [lift_bind]
    exact h.bind hfg

theorem correspondence_nodes :
    Grammar.Correspondence (fun (_ _ : Unit) {_} reader plain => Mirrors reader plain) lift
      Document.lift where
  pure := Mirrors.pure
  lift reader := mirrors_within (Document.lift reader)
  bind := Mirrors.bind

structure AllEnter (k k' : Nat) : Prop where
  readFrom (minimum : Nat) :
    Enters .expression k (readFrom k · minimum) (Document.lift (Expr.readFrom k' minimum))
  readTail (minimum : Nat) (left : Expr) :
    Enters .operators k (readTail k · minimum left) (Document.lift (Expr.readTail k' minimum left))
  readOperand : Enters .operand k (readOperand k ·) (Document.lift (Expr.readOperand k'))
  readPrimary : Enters .primary k (readPrimary k ·) (Document.lift (Expr.readPrimary k'))
  readParts (plainMayFollow : Bool) :
    Enters .parts k (readParts k · plainMayFollow)
      (Document.lift (Expr.readParts k' plainMayFollow))
  readItems (isFirst : Bool) :
    Enters .items k (readItems k · isFirst) (Document.lift (Expr.readItems k' isFirst))
  readArguments (isFirst : Bool) :
    Enters .arguments k (readArguments k · isFirst) (Document.lift (Expr.readArguments k' isFirst))
  readPostfix (object : Expr) :
    Enters .accesses k (readPostfix k · object) (Document.lift (Expr.readPostfix k' object))

variable {k k' : Nat}

theorem allEnter_zero (k' : Nat) : AllEnter 0 k' where
  readFrom _ := by simp only [readFrom]; exact enters_stop
  readTail _ _ := by simp only [readTail]; exact enters_stop
  readOperand := by simp only [readOperand]; exact enters_stop
  readPrimary := by simp only [readPrimary]; exact enters_stop
  readParts _ := by simp only [readParts]; exact enters_stop
  readItems _ := by simp only [readItems]; exact enters_stop
  readArguments _ := by simp only [readArguments]; exact enters_stop
  readPostfix _ := by simp only [readPostfix]; exact enters_stop

theorem allEnter_succ (ih : AllEnter k k') : AllEnter (k + 1) (k' + 1) := by
  have h := correspondence_expressions
  have hexpression := fun trail minimum => (ih.readFrom minimum).mirrors trail
  have hoperators := fun trail minimum left => (ih.readTail minimum left).mirrors trail
  have harguments := fun trail isFirst => (ih.readArguments isFirst).mirrors trail
  refine ⟨?readFrom, ?readTail, ?readOperand, ?readPrimary, ?readParts, ?readItems, ?readArguments,
    ?readPostfix⟩
  case readFrom =>
    intro minimum
    simp only [readFrom, Expr.readFrom]
    exact enters_bind fun trail => h.expression () (ih.readOperand.mirrors trail)
      (hoperators trail) minimum
  case readTail =>
    intro minimum left
    simp only [readTail, Expr.readTail]
    exact enters_bind fun trail => h.operators () (hexpression trail)
      (hoperators trail) minimum left
  case readOperand =>
    simp only [readOperand, Expr.readOperand]
    exact enters_bind fun trail => h.operand () (hexpression trail)
      (ih.readPrimary.mirrors trail) (fun object => (ih.readPostfix object).mirrors trail)
  case readPrimary =>
    simp only [readPrimary, Expr.readPrimary]
    exact enters_bind fun trail => h.primary () (hexpression trail)
      (fun plainMayFollow => (ih.readParts plainMayFollow).mirrors trail)
      (fun isFirst => (ih.readItems isFirst).mirrors trail)
  case readParts =>
    intro plainMayFollow
    simp only [readParts, Expr.readParts]
    exact enters_bind fun trail => h.parts () (hexpression trail)
      (fun plainMayFollow => (ih.readParts plainMayFollow).mirrors trail) plainMayFollow
  case readItems =>
    intro isFirst
    simp only [readItems, Expr.readItems]
    exact enters_bind fun trail => h.items () (hexpression trail)
      (fun isFirst => (ih.readItems isFirst).mirrors trail) isFirst
  case readArguments =>
    intro isFirst
    simp only [readArguments, Expr.readArguments]
    exact enters_bind fun trail => h.arguments () (hexpression trail)
      (harguments trail) isFirst
  case readPostfix =>
    intro object
    simp only [readPostfix, Expr.readPostfix]
    exact enters_bind fun trail => h.accesses () (hexpression trail) (harguments trail)
      (fun object => (ih.readPostfix object).mirrors trail) object

/-- Every routine for expressions notes its visit, and reads as it does off the record. -/
theorem allEnter (hk : k ≤ k') : AllEnter k k' := by
  induction k generalizing k' with
  | zero => exact allEnter_zero k'
  | succ k ih =>
    obtain ⟨k', rfl⟩ : ∃ j, k' = j + 1 := ⟨k' - 1, by omega⟩
    exact allEnter_succ (ih (by omega))

theorem readExpr_mirrors (trail : List Visit) :
    Mirrors (readExpr trail) (Document.lift Expr.read) := by
  unfold readExpr Expr.read
  exact mirrors_get fun s => ((allEnter (Nat.le_refl _)).readFrom 0).mirrors trail

theorem lastExpression_mirrors (trail : List Visit) :
    Mirrors (lastExpression trail) Document.lastExpression := by
  unfold lastExpression Document.lastExpression
  apply (readExpr_mirrors trail).bind
  intro expr
  exact (mirrors_within _).bind fun _ => .pure expr

structure AllEnterNodes (tags : TagSet) (k k' : Nat) : Prop where
  readNodes (ends : List String) (enclosing : Option String) :
    Enters .nodes k (readNodes tags k · ends enclosing)
      (Document.readNodes tags k' ends enclosing)
  readTag (tag : Tag) (line : Nat) (enclosing : Option String) :
    Enters .tag k (readTag tags k · tag line enclosing)
      (Document.readTag tags k' tag line enclosing)
  readBranches (line : Nat) (otherwise : Option (List Node)) (enclosing : Option String) :
    Enters .branches k (readBranches tags k · line otherwise enclosing)
      (Document.readBranches tags k' line otherwise enclosing)

variable {tags : TagSet}

theorem allEnterNodes_zero (tags : TagSet) (k' : Nat) : AllEnterNodes tags 0 k' where
  readNodes _ _ := by simp only [readNodes]; exact enters_stop
  readTag _ _ _ := by simp only [readTag]; exact enters_stop
  readBranches _ _ _ := by simp only [readBranches]; exact enters_stop

theorem allEnterNodes_succ (ih : AllEnterNodes tags k k') :
    AllEnterNodes tags (k + 1) (k' + 1) := by
  have h := correspondence_nodes
  have hnodes := fun trail ends enclosing => (ih.readNodes ends enclosing).mirrors trail
  have hbranches := fun trail enclosing line otherwise =>
    (ih.readBranches line otherwise enclosing).mirrors trail
  refine ⟨?readNodes, ?readTag, ?readBranches⟩
  case readNodes =>
    intro ends enclosing
    simp only [readNodes, Document.readNodes]
    exact enters_bind fun trail => h.nodes () (readExpr_mirrors trail)
      (fun tag line => (ih.readTag tag line enclosing).mirrors trail)
      (hnodes trail ends enclosing) tags ends
  case readTag =>
    intro tag line enclosing
    simp only [readTag, Document.readTag]
    exact enters_bind fun trail => h.tag () (fun _ => ()) (fun _ => readExpr_mirrors trail)
      (lastExpression_mirrors trail) (fun _ => mirrors_within _) (fun _ _ => mirrors_within _)
      (fun _ => mirrors_within _) (.pure enclosing)
      (fun ends => hnodes trail ends enclosing) (fun name => hnodes trail ["endblock"] (some name))
      (hbranches trail enclosing) tag line
  case readBranches =>
    intro line otherwise enclosing
    simp only [readBranches, Document.readBranches]
    exact enters_bind fun trail => h.branches () (lastExpression_mirrors trail) (mirrors_within _)
      (fun ends => hnodes trail ends enclosing) (hbranches trail enclosing) line otherwise

/-- Every routine for nodes notes its visit, and reads as it does off the record. -/
theorem allEnterNodes (tags : TagSet) (hk : k ≤ k') : AllEnterNodes tags k k' := by
  induction k generalizing k' with
  | zero => exact allEnterNodes_zero tags k'
  | succ k ih =>
    obtain ⟨k', rfl⟩ : ∃ j, k' = j + 1 := ⟨k' - 1, by omega⟩
    exact allEnterNodes_succ (ih (by omega))

theorem readNodes_eq_erase {steps : Nat} (hsteps : k ≤ steps) {stream : TokenStream}
    (h : Finishes (readNodes tags k [] [] none ⟨⟨stream, []⟩, []⟩)) :
    Document.readNodes tags steps [] none ⟨stream, []⟩ =
      erase (readNodes tags k [] [] none ⟨⟨stream, []⟩, []⟩) :=
  (((allEnterNodes tags hsteps).readNodes [] none).mirrors []).eq_erase _ h

/-- If the steps last, the first part of a read on the record is what is read off it. -/
theorem read_eq_of_finishes (tags : TagSet) (stream : TokenStream)
    (h : Finishes (readNodes tags (stepLimit stream.after.length) [] [] none ⟨⟨stream, []⟩, []⟩)) :
    TracedParser.read tags stream = (Document.read tags stream,
      record (readNodes tags (stepLimit stream.after.length) [] [] none ⟨⟨stream, []⟩, []⟩)) := by
  unfold TracedParser.read Document.read
  rw [readNodes_eq_erase (Nat.le_refl _) h]
  cases readNodes tags (stepLimit stream.after.length) [] [] none ⟨⟨stream, []⟩, []⟩ <;> rfl

/-- The record of a read begins with the visit of its first routine. -/
theorem record_readNodes (tags : TagSet) (stream : TokenStream) (n : Nat) :
    [[⟨.nodes, stream.position⟩]] <:+
      record (readNodes tags (stepLimit n) [] [] none ⟨⟨stream, []⟩, []⟩) :=
  ((allEnterNodes tags (Nat.le_refl (stepLimit n))).readNodes [] none).records [] ⟨⟨stream, []⟩, []⟩
    (Nat.succ_pos _)

theorem fault_ne_of_read {tags : TagSet} {stream : TokenStream} {e : SyntaxError}
    (h : Finishes (readNodes tags (stepLimit stream.after.length) [] [] none ⟨⟨stream, []⟩, []⟩))
    (he : Document.read tags stream = .error e) : e.fault ≠ .outOfSteps := by
  have hread := congrArg Prod.fst (read_eq_of_finishes tags stream h)
  rw [he] at hread
  unfold TracedParser.read at hread
  cases hnodes : readNodes tags (stepLimit stream.after.length) [] [] none ⟨⟨stream, []⟩, []⟩ with
  | ok nodes t =>
    rw [hnodes] at hread
    cases hread
  | error fault t =>
    rw [hnodes] at h hread
    obtain rfl := Except.error.inj hread
    exact h

end TracedParser

end TemplateEngine.Document
