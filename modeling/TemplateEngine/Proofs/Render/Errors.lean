import TemplateEngine.Proofs.Agreement
import TemplateEngine.Proofs.Document.Expressions
import TemplateEngine.Render

/-!
Where rendering fails. Main statement: the error is about an expression of the document and has its
line; one about an unknown filter is about a filter expression with that name.
-/

namespace TemplateEngine

structure RenderError.IsAbout (e : RenderError) (part : Expr) : Prop where
  line : part.line = e.line
  filter : ∀ name line, e = .unknownFilter name line →
    ∃ input args, part = .filter line name input args ∧ name ∉ Filter.names

/-- The names that may be used are those that a filter is applied for. -/
theorem Filter.ofName?_eq_none_iff {name : String} : ofName? name = none ↔ name ∉ names := by
  unfold ofName?
  split <;> simp_all [names]

namespace Render

abbrev FailsWith {α : Type} (P : RenderError → Prop) (x : Except RenderError α) : Prop :=
  ComesTo P (fun _ => True) x

def AtLine (line : Nat) (e : RenderError) : Prop :=
  e.line = line ∧ ∀ name line, e ≠ .unknownFilter name line

abbrev FailsAt {α : Type} (line : Nat) (x : Except RenderError α) : Prop :=
  FailsWith (AtLine line) x

theorem failsAt_operand (value : Json) (line : Nat) : FailsAt line (operand value line) := by
  unfold operand
  cases toNumber value with
  | ok x => exact .ok trivial
  | error fault => exact .error ⟨rfl, by simp⟩

theorem failsAt_getItem (options : Options) (object key : Json) (line : Nat) :
    FailsAt line (getItem options object key line) := by
  unfold getItem
  split
  · exact .ok trivial
  · split
    · exact .error ⟨rfl, by simp⟩
    · exact .ok trivial

theorem failsAt_applyUnary (op : UnaryOp) (value : Json) (line : Nat) :
    FailsAt line (applyUnary op value line) := by
  cases op with
  | not => exact .ok trivial
  | neg => exact (failsAt_operand value line).map fun _ _ => trivial
  | pos => exact (failsAt_operand value line).map fun _ _ => trivial

theorem failsAt_compare (texts : String → String → Bool) (numbers : Float → Float → Bool)
    (left right : Json) (line : Nat) : FailsAt line (compare texts numbers left right line) := by
  unfold compare
  split
  · exact .ok trivial
  · refine (failsAt_operand _ line).bind fun x _ => ?_
    exact (failsAt_operand _ line).bind fun y _ => .ok trivial

theorem failsAt_arithmetic (compute : Float → Float → Float) (left right : Json) (line : Nat) :
    FailsAt line (arithmetic compute left right line) :=
  (failsAt_operand _ line).bind fun _ _ => (failsAt_operand _ line).bind fun _ _ => .ok trivial

theorem failsAt_division (compute : Float → Float → Float) (left right : Json) (line : Nat) :
    FailsAt line (division compute left right line) := by
  unfold division
  refine (failsAt_operand _ line).bind fun x _ => (failsAt_operand _ line).bind fun y _ => ?_
  by_cases hzero : (y == 0) = true
  · rw [if_pos hzero]
    exact .error ⟨rfl, by simp⟩
  · rw [if_neg hzero]
    exact .ok trivial

theorem failsAt_applyBinary (op : BinaryOp) (left right : Json) (line : Nat) :
    FailsAt line (applyBinary op left right line) := by
  cases op with
  | lt | gt | ltEq | gtEq => exact failsAt_compare _ _ left right line
  | add | sub | mul | pow => exact failsAt_arithmetic _ left right line
  | div | floorDiv | mod => exact failsAt_division _ left right line
  | or | and | eq | notEq | isIn | notIn | concat => exact .ok trivial

def AboutSome (parts : List Expr) (e : RenderError) : Prop :=
  ∃ part ∈ parts, e.IsAbout part

abbrev FailsIn {α : Type} (parts : List Expr) (x : Except RenderError α) : Prop :=
  FailsWith (AboutSome parts) x

theorem FailsIn.mono {α : Type} {parts more : List Expr} {x : Except RenderError α}
    (hx : FailsIn parts x) (hparts : ∀ part ∈ parts, part ∈ more) : FailsIn more x :=
  ComesTo.mono hx (fun _ ⟨part, hpart, habout⟩ => ⟨part, hparts part hpart, habout⟩) fun _ h => h

/-- What fails at the line of an expression is about it. -/
theorem FailsAt.failsIn {α : Type} {line : Nat} {x : Except RenderError α} (hx : FailsAt line x)
    {expr : Expr} (hline : expr.line = line) : FailsIn expr.parts x :=
  ComesTo.mono hx (fun _ ⟨he, hfilter⟩ =>
    ⟨expr, expr.mem_parts_self, hline.trans he.symm, fun name line heq =>
      absurd heq (hfilter name line)⟩) fun _ h => h

theorem FailsIn.filterInput {parts : List Expr} {input : Except RenderError Evaluated}
    (h : FailsIn parts input) (name : String) : FailsIn parts (filterInput name input) := by
  unfold Render.filterInput
  split
  · exact .ok trivial
  · next e =>
    split
    · exact .ok trivial
    · exact .error (h.of_error rfl)

mutual

/-- An expression fails in one of its parts. -/
theorem failsIn_eval (options : Options) (scopes : List Scope) :
    (expr : Expr) → FailsIn expr.parts (eval options scopes expr)
  | .null _ | .bool _ _ | .number _ _ | .string _ _ => by
    rw [eval]
    exact .ok trivial
  | .name line name => by
    have hname : FailsAt line (eval options scopes (.name line name)) := by
      rw [eval]
      split
      · exact .ok trivial
      · split
        · exact .error ⟨rfl, by simp⟩
        · exact .ok trivial
    exact hname.failsIn rfl
  | .array line items => by
    rw [eval]
    have hitems := failsIn_evalAll options scopes items
    exact (hitems.mono fun part hpart => by simp [Expr.parts, hpart]).bind fun _ _ => .ok trivial
  | .attr line object member => by
    rw [eval]
    have hobject := failsIn_eval options scopes object
    refine (hobject.mono fun part hpart => by simp [Expr.parts, hpart]).bind fun object _ => ?_
    exact ((failsAt_getItem options _ _ line).failsIn rfl).bind fun _ _ => .ok trivial
  | .item line object index => by
    rw [eval]
    have hobject := failsIn_eval options scopes object
    have hindex := failsIn_eval options scopes index
    refine (hobject.mono fun part hpart => by simp [Expr.parts, hpart]).bind fun object _ => ?_
    refine (hindex.mono fun part hpart => by simp [Expr.parts, hpart]).bind fun index _ => ?_
    exact ((failsAt_getItem options _ _ line).failsIn rfl).bind fun _ _ => .ok trivial
  | .unary line op operand => by
    rw [eval]
    have hoperand := failsIn_eval options scopes operand
    refine (hoperand.mono fun part hpart => by simp [Expr.parts, hpart]).bind fun operand _ => ?_
    exact ((failsAt_applyUnary op _ line).failsIn rfl).bind fun _ _ => .ok trivial
  | .binary line op left right => by
    rw [eval]
    have hleft := failsIn_eval options scopes left
    have hright := failsIn_eval options scopes right
    refine (hleft.mono fun part hpart => by simp [Expr.parts, hpart]).bind fun left _ => ?_
    split
    · exact .ok trivial
    · refine (hright.mono fun part hpart => by simp [Expr.parts, hpart]).bind fun right _ => ?_
      exact ((failsAt_applyBinary op _ _ line).failsIn rfl).bind fun _ _ => .ok trivial
  | .filter line name input args => by
    rw [eval]
    have hinput := (failsIn_eval options scopes input).filterInput name
    have hargs := failsIn_evalAll options scopes args
    refine (hinput.mono fun part hpart => by simp [Expr.parts, hpart]).bind fun value _ => ?_
    refine (hargs.mono fun part hpart => by simp [Expr.parts, hpart]).bind fun values _ => ?_
    split
    · exact .ok trivial
    · next hname =>
      refine .error ⟨_, Expr.mem_parts_self _, rfl, fun other otherLine heq => ?_⟩
      obtain ⟨rfl, rfl⟩ := RenderError.unknownFilter.inj heq
      exact ⟨input, args, rfl, Filter.ofName?_eq_none_iff.1 hname⟩

theorem failsIn_evalAll (options : Options) (scopes : List Scope) :
    (exprs : List Expr) → FailsIn (partsOfExprs exprs) (evalAll options scopes exprs)
  | [] => by
    rw [evalAll]
    exact .ok trivial
  | expr :: exprs => by
    rw [evalAll]
    have hfirst := failsIn_eval options scopes expr
    have hrest := failsIn_evalAll options scopes exprs
    refine (hfirst.mono fun part hpart => by simp [partsOfExprs, hpart]).bind fun first _ => ?_
    exact (hrest.mono fun part hpart => by simp [partsOfExprs, hpart]).bind fun _ _ => .ok trivial

end

theorem failsIn_repeatBody {parts : List Expr} {body : Scope → Except RenderError String}
    (h : ∀ scope, FailsIn parts (body scope)) (scopes : List Scope) :
    FailsIn parts (repeatBody body scopes) := by
  induction scopes with
  | nil => exact .ok trivial
  | cons scope scopes ih => exact (h scope).bind fun _ _ => ih.bind fun _ _ => .ok trivial

mutual

theorem failsIn_renderNode (options : Options) :
    (node : Node) → ∀ scopes, FailsIn node.exprs (renderNode options scopes node)
  | .text _ _ => fun _ => by
    rw [renderNode]
    exact .ok trivial
  | .print _ expr => fun scopes => by
    rw [renderNode]
    exact (failsIn_eval options scopes expr).map fun _ _ => trivial
  | .choice _ branches otherwise => fun scopes => by
    rw [renderNode]
    have hbranches := failsIn_renderBranches options branches scopes
    have hotherwise := failsIn_renderOtherwise options otherwise scopes
    refine (hbranches.mono fun part hpart => by simp [Node.exprs, hpart]).bind fun taken _ => ?_
    split
    · exact .ok trivial
    · exact hotherwise.mono fun part hpart => by simp [Node.exprs, hpart]
  | .loop _ key target iterable body otherwise => fun scopes => by
    rw [renderNode]
    have hotherwise := failsIn_renderOtherwise options otherwise scopes
    have hbody : ∀ scope, FailsIn (exprsOfNodes body)
        (renderNodes options (scope :: scopes) body) :=
      fun scope => failsIn_renderNodes options body (scope :: scopes)
    refine ((failsIn_eval options scopes iterable).mono fun part hpart => by
      simp [Node.exprs, hpart]).bind fun value _ => ?_
    split
    · exact hotherwise.mono fun part hpart => by simp [Node.exprs, hpart]
    · exact (failsIn_repeatBody hbody _).mono fun part hpart => by simp [Node.exprs, hpart]
  | .block _ _ body => fun scopes => by
    rw [renderNode]
    exact failsIn_renderNodes options body scopes
  | .comment _ _ _ => fun _ => by
    rw [renderNode]
    exact .ok trivial

theorem failsIn_renderNodes (options : Options) :
    (nodes : List Node) → ∀ scopes, FailsIn (exprsOfNodes nodes) (renderNodes options scopes nodes)
  | [] => fun _ => by
    rw [renderNodes]
    exact .ok trivial
  | node :: nodes => fun scopes => by
    rw [renderNodes]
    have hnode := failsIn_renderNode options node scopes
    have hnodes := failsIn_renderNodes options nodes scopes
    refine (hnode.mono fun part hpart => by simp [exprsOfNodes, hpart]).bind fun first _ => ?_
    exact (hnodes.mono fun part hpart => by simp [exprsOfNodes, hpart]).bind fun _ _ => .ok trivial

theorem failsIn_renderBranches (options : Options) :
    (branches : List Branch) → ∀ scopes,
      FailsIn (exprsOfBranches branches) (renderBranches options scopes branches)
  | [] => fun _ => by
    rw [renderBranches]
    exact .ok trivial
  | .mk condition body :: branches => fun scopes => by
    rw [renderBranches]
    have hbody := failsIn_renderNodes options body scopes
    have hbranches := failsIn_renderBranches options branches scopes
    refine ((failsIn_eval options scopes condition).mono fun part hpart => by
      simp [exprsOfBranches, hpart]).bind fun value _ => ?_
    split
    · refine (hbody.mono fun part hpart => by simp [exprsOfBranches, hpart]).bind fun _ _ => ?_
      exact .ok trivial
    · exact hbranches.mono fun part hpart => by simp [exprsOfBranches, hpart]

theorem failsIn_renderOtherwise (options : Options) :
    (otherwise : Option (List Node)) → ∀ scopes,
      FailsIn (exprsOfBody otherwise) (renderOtherwise options scopes otherwise)
  | none => fun _ => by
    rw [renderOtherwise]
    exact .ok trivial
  | some body => fun scopes => by
    rw [renderOtherwise]
    exact failsIn_renderNodes options body scopes

end

/-- A document fails in one of its expressions. -/
theorem failsIn_ofDocument (options : Options) (document : Document) (context : Json) :
    FailsIn document.exprs (ofDocument options document context) :=
  failsIn_renderNodes options document.nodes _

end Render

end TemplateEngine
