import TemplateEngine.Proofs.Render.Errors
import TemplateEngine.Proofs.Tokens
import TemplateEngine.Script

/-!
Filters in compiled and in rendered documents. Main statement: a document compiles exactly if all
filters in it are known, and then rendering meets no unknown filter.
-/

namespace TemplateEngine

def Expr.UsesUnknown : Expr → Prop
  | .filter _ used _ _ => used ∉ Filter.names
  | _ => False

def SomeUnknown (parts : List Expr) : Prop :=
  ∃ part ∈ parts, part.UsesUnknown

@[simp] theorem someUnknown_nil : SomeUnknown [] ↔ False := by
  simp [SomeUnknown]

@[simp] theorem someUnknown_cons (part : Expr) (parts : List Expr) :
    SomeUnknown (part :: parts) ↔ part.UsesUnknown ∨ SomeUnknown parts := by
  simp [SomeUnknown]

@[simp] theorem someUnknown_append (parts more : List Expr) :
    SomeUnknown (parts ++ more) ↔ SomeUnknown parts ∨ SomeUnknown more := by
  simp only [SomeUnknown, List.mem_append, or_and_right, exists_or]

theorem someUnknown_iff (parts : List Expr) :
    SomeUnknown parts ↔
      ∃ line name input args, .filter line name input args ∈ parts ∧ name ∉ Filter.names := by
  constructor
  · rintro ⟨part, hpart, hunknown⟩
    cases part with
    | filter line name input args => exact ⟨line, name, input, args, hpart, hunknown⟩
    | _ => exact hunknown.elim
  · rintro ⟨line, name, input, args, hpart, hunknown⟩
    exact ⟨_, hpart, hunknown⟩

namespace Script

def FailsIff {ε α : Type} (P : Prop) (x : Except ε α) : Prop :=
  (∃ e, x = .error e) ↔ P

namespace FailsIff

variable {ε α β : Type} {P Q : Prop}

theorem ok (a : α) : FailsIff False (.ok a : Except ε α) := by
  simp [FailsIff]

theorem congr {x : Except ε α} (h : FailsIff P x) (hPQ : P ↔ Q) : FailsIff Q x :=
  h.trans hPQ

theorem bind {x : Except ε α} {f : α → Except ε β} (hx : FailsIff P x)
    (hf : ∀ a, FailsIff Q (f a)) : FailsIff (P ∨ Q) (x >>= f) := by
  cases x with
  | error e =>
    have hP : P := hx.1 ⟨e, rfl⟩
    exact iff_of_true ⟨e, rfl⟩ (.inl hP)
  | ok a =>
    have hP : ¬ P := fun hP => by simpa using hx.2 hP
    rw [ok_bind]
    exact (hf a).congr (by simp [hP])

/-- What follows without failing changes nothing. -/
theorem thenOk {x : Except ε α} {f : α → Except ε β} (hx : FailsIff P x)
    (hf : ∀ a, FailsIff False (f a)) : FailsIff P (x >>= f) :=
  (hx.bind hf).congr (by simp)

end FailsIff

mutual

/-- The script of an expression fails exactly if a part of it uses an unknown filter. -/
theorem ofExpr_failsIff (scope : Nat) :
    (expr : Expr) → FailsIff (SomeUnknown expr.parts) (ofExpr scope expr)
  | .null _ | .bool _ _ | .number _ _ | .string _ _ | .name _ _ => by
    rw [ofExpr]
    exact (FailsIff.ok _).congr (by simp [Expr.parts, Expr.UsesUnknown])
  | .array _ items => by
    rw [ofExpr]
    exact ((ofExprs_failsIff scope items).thenOk fun _ => .ok _).congr
      (by simp [Expr.parts, Expr.UsesUnknown])
  | .attr _ object _ => by
    rw [ofExpr]
    exact ((ofExpr_failsIff scope object).thenOk fun _ => .ok _).congr
      (by simp [Expr.parts, Expr.UsesUnknown])
  | .item _ object index => by
    rw [ofExpr]
    refine ((ofExpr_failsIff scope object).bind fun _ =>
      (ofExpr_failsIff scope index).thenOk fun _ => .ok _).congr ?_
    simp [Expr.parts, Expr.UsesUnknown]
  | .unary _ _ operand => by
    rw [ofExpr]
    exact ((ofExpr_failsIff scope operand).thenOk fun _ => .ok _).congr
      (by simp [Expr.parts, Expr.UsesUnknown])
  | .binary _ _ left right => by
    rw [ofExpr]
    refine ((ofExpr_failsIff scope left).bind fun _ =>
      (ofExpr_failsIff scope right).thenOk fun _ => .ok _).congr ?_
    simp [Expr.parts, Expr.UsesUnknown]
  | .filter line name input args => by
    rw [ofExpr]
    by_cases hname : name ∈ Filter.names
    · rw [if_neg fun hunknown => hunknown hname]
      refine ((ofExprs_failsIff scope args).bind fun _ =>
        (ofExpr_failsIff scope input).thenOk fun _ => .ok _).congr ?_
      simp [Expr.parts, Expr.UsesUnknown, hname, or_comm]
    · rw [if_pos hname]
      refine iff_of_true ⟨_, rfl⟩ ?_
      simp [Expr.parts, Expr.UsesUnknown, hname]

theorem ofExprs_failsIff (scope : Nat) :
    (exprs : List Expr) → FailsIff (SomeUnknown (partsOfExprs exprs)) (ofExprs scope exprs)
  | [] => by
    rw [ofExprs]
    exact (FailsIff.ok _).congr (by simp [partsOfExprs])
  | expr :: exprs => by
    rw [ofExprs]
    refine ((ofExpr_failsIff scope expr).bind fun _ =>
      (ofExprs_failsIff scope exprs).thenOk fun _ => .ok _).congr ?_
    simp [partsOfExprs]

end

/-- A writer that fails exactly under the given condition, in whatever state it is. -/
def WriterFailsIff {α : Type} (P : Prop) (writer : Writer α) : Prop :=
  ∀ script, FailsIff P (outcome writer script)

namespace WriterFailsIff

variable {α β : Type} {P Q : Prop}

theorem congr {writer : Writer α} (h : WriterFailsIff P writer) (hPQ : P ↔ Q) :
    WriterFailsIff Q writer :=
  fun script => (h script).congr hPQ

theorem bind {writer : Writer α} {f : α → Writer β} (h : WriterFailsIff P writer)
    (hf : ∀ a, WriterFailsIff Q (f a)) : WriterFailsIff (P ∨ Q) (writer >>= f) := by
  intro script
  rw [outcome_bind]
  exact (h script).bind fun result => hf result.1 result.2

/-- What comes before without failing changes nothing. -/
theorem after {writer : Writer α} {f : α → Writer β} (h : WriterFailsIff False writer)
    (hf : ∀ a, WriterFailsIff P (f a)) : WriterFailsIff P (writer >>= f) :=
  (h.bind hf).congr (by simp)

end WriterFailsIff

theorem succeeds_pure {α : Type} (a : α) : WriterFailsIff False (pure a : Writer α) :=
  fun _ => .ok _

theorem succeeds_get : WriterFailsIff False (get : Writer Script) :=
  fun _ => .ok _

theorem succeeds_raw (text : String) : WriterFailsIff False (raw text) :=
  fun _ => .ok _

theorem succeeds_indent : WriterFailsIff False indent :=
  fun _ => .ok _

theorem succeeds_outdent : WriterFailsIff False outdent :=
  fun _ => .ok _

theorem succeeds_enterScope : WriterFailsIff False enterScope :=
  fun _ => .ok _

theorem succeeds_leaveScope : WriterFailsIff False leaveScope :=
  fun _ => .ok _

theorem succeeds_write (text : String) : WriterFailsIff False (write text) :=
  fun _ => .ok _

theorem expr_failsIff (e : Expr) : WriterFailsIff (SomeUnknown e.parts) (expr e) := by
  intro script
  unfold expr
  rw [outcome_bind, outcome_get, ok_bind]
  have hscript := ofExpr_failsIff script.scope e
  cases hresult : ofExpr script.scope e with
  | ok text =>
    rw [hresult] at hscript
    have hP : ¬ SomeUnknown e.parts := fun hP => by simpa using hscript.2 hP
    exact (FailsIff.ok _).congr (by simp [hP])
  | error fault =>
    rw [hresult] at hscript
    exact iff_of_true ⟨fault, rfl⟩ (hscript.1 ⟨fault, rfl⟩)

mutual

/-- Writing a node fails exactly if an expression in it uses an unknown filter. -/
theorem writeNode_failsIff (options : Options) :
    (node : Node) → WriterFailsIff (SomeUnknown node.exprs) (writeNode options node)
  | .text _ text => by
    rw [writeNode]
    exact (succeeds_write _).congr (by simp [Node.exprs])
  | .print _ e => by
    rw [writeNode]
    exact ((expr_failsIff e).bind fun _ => succeeds_write _).congr (by simp [Node.exprs])
  | .choice _ branches otherwise => by
    rw [writeNode]
    refine ((writeBranches_failsIff options branches true).bind fun _ =>
      (writeOtherwise_failsIff options otherwise).bind fun _ =>
      succeeds_outdent.after fun _ => succeeds_write _).congr ?_
    simp [Node.exprs]
  | .loop _ key target iterable body otherwise => by
    rw [writeNode]
    refine ((expr_failsIff iterable).bind fun _ => succeeds_get.after fun _ =>
      (succeeds_write _).after fun _ => succeeds_indent.after fun _ =>
      (succeeds_write _).after fun _ =>
      (writeEmptyCase_failsIff options otherwise _).bind fun _ =>
      succeeds_enterScope.after fun _ => (succeeds_write _).after fun _ =>
      succeeds_indent.after fun _ => (succeeds_write _).after fun _ =>
      (writeNodes_failsIff options body).bind fun _ =>
      succeeds_leaveScope.after fun _ => succeeds_outdent.after fun _ =>
      (succeeds_write _).after fun _ => succeeds_outdent.after fun _ =>
      succeeds_write _).congr ?_
    simp [Node.exprs, or_comm]
  | .block _ _ body => by
    rw [writeNode]
    refine ((succeeds_write _).after fun _ => (writeNodes_failsIff options body).bind fun _ =>
      succeeds_write _).congr ?_
    simp [Node.exprs]
  | .comment line text exposed => by
    rw [writeNode]
    split
    · exact (succeeds_raw _).congr (by simp [Node.exprs])
    · exact (succeeds_pure ()).congr (by simp [Node.exprs])

theorem writeNodes_failsIff (options : Options) :
    (nodes : List Node) →
      WriterFailsIff (SomeUnknown (exprsOfNodes nodes)) (writeNodes options nodes)
  | [] => by
    rw [writeNodes]
    exact (succeeds_pure ()).congr (by simp [exprsOfNodes])
  | node :: nodes => by
    rw [writeNodes]
    exact ((writeNode_failsIff options node).bind fun _ => writeNodes_failsIff options nodes).congr
      (by simp [exprsOfNodes])

theorem writeBranches_failsIff (options : Options) :
    (branches : List Branch) → ∀ isFirst,
      WriterFailsIff (SomeUnknown (exprsOfBranches branches))
        (writeBranches options isFirst branches)
  | [] => fun _ => by
    rw [writeBranches]
    exact (succeeds_pure ()).congr (by simp [exprsOfBranches])
  | .mk condition body :: branches => fun isFirst => by
    have hrest : WriterFailsIff (SomeUnknown (exprsOfNodes body ++ exprsOfBranches branches))
        (do
          indent
          writeNodes options body
          writeBranches options false branches) := by
      refine (succeeds_indent.after fun _ => (writeNodes_failsIff options body).bind fun _ =>
        writeBranches_failsIff options branches false).congr ?_
      simp
    rw [writeBranches]
    refine ((expr_failsIff condition).bind fun _ => ?_).congr
      (someUnknown_append condition.parts _).symm
    cases isFirst with
    | true => exact (succeeds_write _).after fun _ => hrest
    | false => exact succeeds_outdent.after fun _ => (succeeds_write _).after fun _ => hrest

theorem writeOtherwise_failsIff (options : Options) :
    (otherwise : Option (List Node)) →
      WriterFailsIff (SomeUnknown (exprsOfBody otherwise)) (writeOtherwise options otherwise)
  | none => by
    rw [writeOtherwise]
    exact (succeeds_pure ()).congr (by simp [exprsOfBody])
  | some body => by
    rw [writeOtherwise]
    exact succeeds_outdent.after fun _ => (succeeds_write _).after fun _ =>
      succeeds_indent.after fun _ => writeNodes_failsIff options body

theorem writeEmptyCase_failsIff (options : Options) :
    (otherwise : Option (List Node)) → ∀ items,
      WriterFailsIff (SomeUnknown (exprsOfBody otherwise)) (writeEmptyCase options items otherwise)
  | none => fun _ => by
    rw [writeEmptyCase]
    exact (succeeds_pure ()).congr (by simp [exprsOfBody])
  | some body => fun items => by
    rw [writeEmptyCase]
    refine ((succeeds_write _).after fun _ => succeeds_indent.after fun _ =>
      (writeNodes_failsIff options body).bind fun _ =>
      succeeds_outdent.after fun _ => succeeds_write _).congr ?_
    simp [exprsOfBody]

end

/-- A document fails to compile exactly if an expression in it uses an unknown filter. -/
theorem ofDocument_failsIff (options : Options) (document : Document) :
    FailsIff (SomeUnknown document.exprs) (ofDocument options document) := by
  have hmodule : WriterFailsIff (SomeUnknown document.exprs) (writeModule options document) := by
    unfold writeModule
    refine ((succeeds_raw _).after fun _ => (succeeds_raw _).after fun _ =>
      (succeeds_raw _).after fun _ => (succeeds_write _).after fun _ =>
      succeeds_indent.after fun _ => (succeeds_write _).after fun _ =>
      (succeeds_write _).after fun _ => (writeNodes_failsIff options document.nodes).bind fun _ =>
      (succeeds_write _).after fun _ => succeeds_outdent.after fun _ => succeeds_write _).congr ?_
    simp [Document.exprs]
  have houtcome := hmodule empty
  unfold outcome at houtcome
  unfold ofDocument
  cases hresult : writeModule options document empty with
  | ok _ script =>
    rw [hresult] at houtcome
    have hP : ¬ SomeUnknown document.exprs := fun hP => by simpa using houtcome.2 hP
    exact (FailsIff.ok _).congr (by simp [hP])
  | error fault _ =>
    rw [hresult] at houtcome
    exact iff_of_true ⟨fault, rfl⟩ (houtcome.1 ⟨fault, rfl⟩)

/-- Compiling fails exactly if a filter expression somewhere in the document has a name that is no
filter's, and a document that compiles never meets an unknown filter when it is rendered. -/
theorem ofDocument_error_iff_unknown_filter (options : Options) (document : Document) :
    ((∃ e, ofDocument options document = .error e) ↔
      ∃ line name input args, .filter line name input args ∈ document.exprs ∧
        name ∉ Filter.names) ∧
    ∀ script, ofDocument options document = .ok script →
      ∀ renderOptions context name line,
        Render.ofDocument renderOptions document context ≠ .error (.unknownFilter name line) := by
  have hcompile := (ofDocument_failsIff options document).trans (someUnknown_iff document.exprs)
  refine ⟨hcompile, fun script hscript renderOptions context name line hrender => ?_⟩
  obtain ⟨part, hpart, habout⟩ :=
    (Render.failsIn_ofDocument renderOptions document context).of_error hrender
  obtain ⟨input, args, rfl, hname⟩ := habout.filter name line rfl
  obtain ⟨e, he⟩ := hcompile.2 ⟨line, name, input, args, hpart, hname⟩
  rw [hscript] at he
  simp at he

/-- A filter in a branch that is never taken: with a name that is no filter's the document does not
compile, and with another one it does. -/
theorem ofDocument_error_iff_unknown_filter_branch :
    ∃ document : String → Document,
      (∃ e, ofDocument ⟨false, true⟩ (document "shout") = .error e) ∧
      (∃ script, ofDocument ⟨false, true⟩ (document "upper") = .ok script) ∧
      ∀ renderOptions context name line,
        Render.ofDocument renderOptions (document "upper") context ≠
          .error (.unknownFilter name line) := by
  let document (name : String) : Document := ⟨"page", [.choice 1
    [.mk (.bool 1 false) [.print 2 (.filter 2 name (.name 2 "x") [])]] none]⟩
  have hshout : ∃ line name input args, .filter line name input args ∈ (document "shout").exprs ∧
      name ∉ Filter.names := by
    refine ⟨2, "shout", .name 2 "x", [], ?_, by decide⟩
    simp [document, Document.exprs, exprsOfNodes, Node.exprs, exprsOfBranches, Expr.parts]
  obtain ⟨script, hupper⟩ : ∃ script, ofDocument ⟨false, true⟩ (document "upper") = .ok script :=
    ⟨_, rfl⟩
  exact ⟨document, (ofDocument_error_iff_unknown_filter _ _).1.2 hshout, ⟨script, hupper⟩,
    (ofDocument_error_iff_unknown_filter _ _).2 script hupper⟩

end Script

end TemplateEngine
