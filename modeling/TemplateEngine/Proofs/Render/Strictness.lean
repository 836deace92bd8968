import TemplateEngine.Proofs.Agreement
import TemplateEngine.Proofs.Document.Expressions
import TemplateEngine.Render

/-!
Rendering with and without errors for undefined names and keys. Main statement: what is rendered
with these errors is rendered alike without them, if every input of `default` that fails for an
undefined name or key is empty without them.
-/

namespace TemplateEngine.Render

/-- An input of `default` has the same default in both modes: if it fails for an undefined name or
key, then it is empty when these are no errors. -/
def DefaultAgrees (autoescape : Bool) (scopes : List Scope) (input : Expr) : Prop :=
  ∀ e, eval ⟨autoescape, true⟩ scopes input = .error e → e.isUndefined = true →
    ∃ value, eval ⟨autoescape, false⟩ scopes input = .ok value ∧ isEmpty value.value = true

mutual

/-- Every default agrees that the strict value of an expression comes from. -/
def DefaultsAgree (autoescape : Bool) (scopes : List Scope) : Expr → Prop
  | .null _ | .bool _ _ | .number _ _ | .string _ _ | .name _ _ => True
  | .array _ items => DefaultsAgreeInAll autoescape scopes items
  | .attr _ object _ => DefaultsAgree autoescape scopes object
  | .item _ object index =>
    DefaultsAgree autoescape scopes object ∧ DefaultsAgree autoescape scopes index
  | .unary _ _ operand => DefaultsAgree autoescape scopes operand
  | .binary _ op left right =>
    DefaultsAgree autoescape scopes left ∧
      ∀ value, eval ⟨autoescape, true⟩ scopes left = .ok value →
        shortCircuit? op value.value = none → DefaultsAgree autoescape scopes right
  | .filter _ name input args =>
    (name = "default" → DefaultAgrees autoescape scopes input) ∧
      (∀ value, eval ⟨autoescape, true⟩ scopes input = .ok value →
        DefaultsAgree autoescape scopes input) ∧
      DefaultsAgreeInAll autoescape scopes args

def DefaultsAgreeInAll (autoescape : Bool) (scopes : List Scope) : List Expr → Prop
  | [] => True
  | expr :: exprs =>
    DefaultsAgree autoescape scopes expr ∧ DefaultsAgreeInAll autoescape scopes exprs

end

mutual

/-- Every default agrees that is applied when a node is rendered strictly. -/
def DefaultsAgreeInNode (autoescape : Bool) (scopes : List Scope) : Node → Prop
  | .text _ _ => True
  | .print _ expr => DefaultsAgree autoescape scopes expr
  | .choice _ branches otherwise =>
    DefaultsAgreeInBranches autoescape scopes branches ∧
      (renderBranches ⟨autoescape, true⟩ scopes branches = .ok none →
        DefaultsAgreeInBody autoescape scopes otherwise)
  | .loop _ key target iterable body otherwise =>
    DefaultsAgree autoescape scopes iterable ∧
      ∀ value, eval ⟨autoescape, true⟩ scopes iterable = .ok value →
        (loopItems value.value = [] → DefaultsAgreeInBody autoescape scopes otherwise) ∧
          ∀ scope ∈ loopScopes key target (loopItems value.value),
            DefaultsAgreeInNodes autoescape (scope :: scopes) body
  | .block _ _ body => DefaultsAgreeInNodes autoescape scopes body
  | .comment _ _ _ => True

def DefaultsAgreeInNodes (autoescape : Bool) (scopes : List Scope) : List Node → Prop
  | [] => True
  | node :: nodes =>
    DefaultsAgreeInNode autoescape scopes node ∧ DefaultsAgreeInNodes autoescape scopes nodes

def DefaultsAgreeInBranches (autoescape : Bool) (scopes : List Scope) : List Branch → Prop
  | [] => True
  | .mk condition body :: branches =>
    DefaultsAgree autoescape scopes condition ∧
      ∀ value, eval ⟨autoescape, true⟩ scopes condition = .ok value →
        if isTruthy value.value then DefaultsAgreeInNodes autoescape scopes body
        else DefaultsAgreeInBranches autoescape scopes branches

def DefaultsAgreeInBody (autoescape : Bool) (scopes : List Scope) : Option (List Node) → Prop
  | none => True
  | some body => DefaultsAgreeInNodes autoescape scopes body

end

/-- Whenever the first computation succeeds, the second one has the same result. -/
def Carries {α : Type} (x y : Except RenderError α) : Prop :=
  ∀ a, x = .ok a → y = .ok a

namespace Carries

variable {α β : Type} {x y : Except RenderError α}

theorem refl (x : Except RenderError α) : Carries x x :=
  fun _ h => h

theorem error (e : RenderError) (y : Except RenderError α) : Carries (.error e) y := by
  intro a h
  simp at h

theorem bind {f g : α → Except RenderError β} (h : Carries x y)
    (hfg : ∀ a, x = .ok a → Carries (f a) (g a)) : Carries (x >>= f) (y >>= g) := by
  cases x with
  | error e => exact .error e _
  | ok a =>
    rw [h a rfl]
    exact hfg a rfl

theorem map (h : Carries x y) (f : α → β) : Carries (x.map f) (y.map f) := by
  cases x with
  | error e => exact .error e _
  | ok a =>
    rw [h a rfl]
    exact .refl _

end Carries

theorem getItem_carries (autoescape : Bool) (object key : Json) (line : Nat) :
    Carries (getItem ⟨autoescape, true⟩ object key line)
      (getItem ⟨autoescape, false⟩ object key line) := by
  unfold getItem
  split
  · exact .refl _
  · exact .error _ _

theorem applyFilter_fallback {input : Evaluated} (h : isEmpty input.value = true)
    (args : List Json) :
    applyFilter .fallback input args = applyFilter .fallback (plain .null) args := by
  simp only [applyFilter, h]
  rfl

/-- What is done with the input of a filter is done alike, if a default agrees. -/
theorem filterInput_carries {autoescape : Bool} {scopes : List Scope} {name : String}
    {input : Expr} {f g : Evaluated → Except RenderError Evaluated}
    (hdefault : name = "default" → DefaultAgrees autoescape scopes input)
    (hinput : Carries (eval ⟨autoescape, true⟩ scopes input)
      (eval ⟨autoescape, false⟩ scopes input))
    (hfg : ∀ a, Carries (f a) (g a))
    (hempty : ∀ a, name = "default" → isEmpty a.value = true → g a = g (plain .null)) :
    Carries (filterInput name (eval ⟨autoescape, true⟩ scopes input) >>= f)
      (filterInput name (eval ⟨autoescape, false⟩ scopes input) >>= g) := by
  cases hstrict : eval ⟨autoescape, true⟩ scopes input with
  | ok value =>
    rw [hinput value hstrict]
    exact hfg value
  | error e =>
    simp only [filterInput]
    split
    · next hcaught =>
      obtain ⟨hname, hundefined⟩ := hcaught
      obtain ⟨value, hvalue, hvanishes⟩ := hdefault hname e hstrict hundefined
      rw [hvalue]
      show Carries (f (plain .null)) (g value)
      rw [hempty value hname hvanishes]
      exact hfg _
    · exact .error e _

mutual

/-- A strict value is the value without errors for undefined names and keys. -/
theorem eval_carries (autoescape : Bool) (scopes : List Scope) :
    (expr : Expr) → DefaultsAgree autoescape scopes expr →
      Carries (eval ⟨autoescape, true⟩ scopes expr) (eval ⟨autoescape, false⟩ scopes expr)
  | .null _, _ | .bool _ _, _ | .number _ _, _ | .string _ _, _ => by
    rw [eval, eval]
    exact .refl _
  | .name line name, _ => by
    rw [eval, eval]
    split
    · exact .refl _
    · exact .error _ _
  | .array _ items, h => by
    rw [DefaultsAgree] at h
    rw [eval, eval]
    exact (evalAll_carries autoescape scopes items h).bind fun _ _ => .refl _
  | .attr line object member, h => by
    rw [DefaultsAgree] at h
    rw [eval, eval]
    refine (eval_carries autoescape scopes object h).bind fun object _ => ?_
    exact (getItem_carries autoescape _ _ line).bind fun _ _ => .refl _
  | .item line object index, h => by
    rw [DefaultsAgree] at h
    obtain ⟨hobject, hindex⟩ := h
    rw [eval, eval]
    refine (eval_carries autoescape scopes object hobject).bind fun object _ => ?_
    refine (eval_carries autoescape scopes index hindex).bind fun index _ => ?_
    exact (getItem_carries autoescape _ _ line).bind fun _ _ => .refl _
  | .unary line op operand, h => by
    rw [DefaultsAgree] at h
    rw [eval, eval]
    exact (eval_carries autoescape scopes operand h).bind fun _ _ => .refl _
  | .binary line op left right, h => by
    rw [DefaultsAgree] at h
    obtain ⟨hleft, hright⟩ := h
    rw [eval, eval]
    refine (eval_carries autoescape scopes left hleft).bind fun value hvalue => ?_
    split
    · exact .refl _
    · next hcircuit =>
      have hright := hright value hvalue hcircuit
      exact (eval_carries autoescape scopes right hright).bind fun _ _ => .refl _
  | .filter line name input args, h => by
    rw [DefaultsAgree] at h
    obtain ⟨hdefault, hinput, hargs⟩ := h
    have hinput : Carries (eval ⟨autoescape, true⟩ scopes input)
        (eval ⟨autoescape, false⟩ scopes input) := fun value hvalue =>
      eval_carries autoescape scopes input (hinput value hvalue) value hvalue
    rw [eval, eval]
    refine filterInput_carries hdefault hinput (fun value => ?_) fun value hname hempty => ?_
    · exact (evalAll_carries autoescape scopes args hargs).bind fun _ _ => .refl _
    · subst hname
      refine bind_congr fun values => ?_
      exact congrArg Except.ok (applyFilter_fallback hempty values)

theorem evalAll_carries (autoescape : Bool) (scopes : List Scope) :
    (exprs : List Expr) → DefaultsAgreeInAll autoescape scopes exprs →
      Carries (evalAll ⟨autoescape, true⟩ scopes exprs) (evalAll ⟨autoescape, false⟩ scopes exprs)
  | [], _ => by
    rw [evalAll, evalAll]
    exact .refl _
  | expr :: exprs, h => by
    rw [DefaultsAgreeInAll] at h
    obtain ⟨hexpr, hexprs⟩ := h
    rw [evalAll, evalAll]
    refine (eval_carries autoescape scopes expr hexpr).bind fun _ _ => ?_
    exact (evalAll_carries autoescape scopes exprs hexprs).bind fun _ _ => .refl _

end

theorem printText_lenient (autoescape : Bool) :
    printText ⟨autoescape, true⟩ = printText ⟨autoescape, false⟩ :=
  rfl

theorem repeatBody_carries {strict lenient : Scope → Except RenderError String}
    {scopes : List Scope} (h : ∀ scope ∈ scopes, Carries (strict scope) (lenient scope)) :
    Carries (repeatBody strict scopes) (repeatBody lenient scopes) := by
  induction scopes with
  | nil => exact .refl _
  | cons scope scopes ih =>
    refine (h scope (by simp)).bind fun first _ => ?_
    exact (ih fun other hother => h other (List.mem_cons_of_mem _ hother)).bind fun _ _ => .refl _

mutual

theorem renderNode_carries (autoescape : Bool) :
    (node : Node) → ∀ scopes, DefaultsAgreeInNode autoescape scopes node →
      Carries (renderNode ⟨autoescape, true⟩ scopes node)
        (renderNode ⟨autoescape, false⟩ scopes node)
  | .text _ _ => fun _ _ => .refl _
  | .print _ expr => fun scopes h => by
    rw [DefaultsAgreeInNode] at h
    rw [renderNode, renderNode, printText_lenient]
    exact (eval_carries autoescape scopes expr h).map _
  | .choice _ branches otherwise => fun scopes h => by
    rw [DefaultsAgreeInNode] at h
    obtain ⟨hbranches, hotherwise⟩ := h
    rw [renderNode, renderNode]
    refine (renderBranches_carries autoescape branches scopes hbranches).bind fun taken htaken => ?_
    cases taken with
    | some output => exact .refl _
    | none => exact renderOtherwise_carries autoescape otherwise scopes (hotherwise htaken)
  | .loop _ key target iterable body otherwise => fun scopes h => by
    rw [DefaultsAgreeInNode] at h
    obtain ⟨hiterable, hbodies⟩ := h
    rw [renderNode, renderNode]
    refine (eval_carries autoescape scopes iterable hiterable).bind fun value hvalue => ?_
    obtain ⟨hotherwise, hbody⟩ := hbodies value hvalue
    split
    · next hitems => exact renderOtherwise_carries autoescape otherwise scopes (hotherwise hitems)
    · exact repeatBody_carries fun scope hscope =>
        renderNodes_carries autoescape body (scope :: scopes) (hbody scope hscope)
  | .block _ _ body => fun scopes h => by
    rw [DefaultsAgreeInNode] at h
    rw [renderNode, renderNode]
    exact renderNodes_carries autoescape body scopes h
  | .comment _ _ _ => fun _ _ => .refl _

theorem renderNodes_carries (autoescape : Bool) :
    (nodes : List Node) → ∀ scopes, DefaultsAgreeInNodes autoescape scopes nodes →
      Carries (renderNodes ⟨autoescape, true⟩ scopes nodes)
        (renderNodes ⟨autoescape, false⟩ scopes nodes)
  | [] => fun _ _ => .refl _
  | node :: nodes => fun scopes h => by
    rw [DefaultsAgreeInNodes] at h
    obtain ⟨hnode, hnodes⟩ := h
    rw [renderNodes, renderNodes]
    refine (renderNode_carries autoescape node scopes hnode).bind fun _ _ => ?_
    exact (renderNodes_carries autoescape nodes scopes hnodes).bind fun _ _ => .refl _

theorem renderBranches_carries (autoescape : Bool) :
    (branches : List Branch) → ∀ scopes, DefaultsAgreeInBranches autoescape scopes branches →
      Carries (renderBranches ⟨autoescape, true⟩ scopes branches)
        (renderBranches ⟨autoescape, false⟩ scopes branches)
  | [] => fun _ _ => .refl _
  | .mk condition body :: branches => fun scopes h => by
    rw [DefaultsAgreeInBranches] at h
    obtain ⟨hcondition, htaken⟩ := h
    rw [renderBranches, renderBranches]
    refine (eval_carries autoescape scopes condition hcondition).bind fun value hvalue => ?_
    have htaken := htaken value hvalue
    split
    · next htruthy =>
      rw [if_pos htruthy] at htaken
      exact (renderNodes_carries autoescape body scopes htaken).bind fun _ _ => .refl _
    · next htruthy =>
      rw [if_neg htruthy] at htaken
      exact renderBranches_carries autoescape branches scopes htaken

theorem renderOtherwise_carries (autoescape : Bool) :
    (otherwise : Option (List Node)) → ∀ scopes, DefaultsAgreeInBody autoescape scopes otherwise →
      Carries (renderOtherwise ⟨autoescape, true⟩ scopes otherwise)
        (renderOtherwise ⟨autoescape, false⟩ scopes otherwise)
  | none => fun _ _ => .refl _
  | some body => fun scopes h => by
    rw [DefaultsAgreeInBody] at h
    rw [renderOtherwise, renderOtherwise]
    exact renderNodes_carries autoescape body scopes h

end

/-- A name, or a member of a path, or its item under a constant key. -/
def IsPath : Expr → Prop
  | .name _ _ => True
  | .attr _ object _ => IsPath object
  | .item _ object (.string _ _) => IsPath object
  | .item _ object (.number _ _) => IsPath object
  | _ => False

/-- Two computations of a value: both have the same one, or the second one has an absent one. -/
def SameOrAbsent (strict lenient : Except RenderError Evaluated) : Prop :=
  (∃ value, strict = .ok value ∧ lenient = .ok value) ∨ lenient = .ok (plain .null)

theorem SameOrAbsent.getItem {autoescape : Bool} {strict lenient : Except RenderError Evaluated}
    (h : SameOrAbsent strict lenient) (key : Json) (line : Nat) :
    SameOrAbsent
      (do
        let object ← strict
        let value ← Render.getItem ⟨autoescape, true⟩ object.value key line
        return plain value)
      (do
        let object ← lenient
        let value ← Render.getItem ⟨autoescape, false⟩ object.value key line
        return plain value) := by
  rcases h with ⟨object, rfl, rfl⟩ | rfl
  · cases hitem : item? object.value key with
    | some value =>
      refine .inl ⟨plain value, ?_, ?_⟩ <;> simp only [ok_bind, Render.getItem, hitem] <;> rfl
    | none =>
      refine .inr ?_
      simp only [ok_bind, Render.getItem, hitem]
      rfl
  · exact .inr rfl

/-- Along a path nothing goes wrong but that a name or key is undefined. -/
theorem sameOrAbsent_of_isPath (autoescape : Bool) (scopes : List Scope) :
    (path : Expr) → IsPath path →
      SameOrAbsent (eval ⟨autoescape, true⟩ scopes path) (eval ⟨autoescape, false⟩ scopes path)
  | .name line name, _ => by
    rw [eval, eval]
    cases find? scopes name with
    | some value => exact .inl ⟨plain value, rfl, rfl⟩
    | none => exact .inr rfl
  | .attr line object member, h => by
    rw [IsPath] at h
    rw [eval, eval]
    exact (sameOrAbsent_of_isPath autoescape scopes object h).getItem (.string member) line
  | .item line object (.string _ key), h => by
    rw [IsPath] at h
    simp only [eval, ok_bind]
    exact (sameOrAbsent_of_isPath autoescape scopes object h).getItem (.string key) line
  | .item line object (.number _ key), h => by
    rw [IsPath] at h
    simp only [eval, ok_bind]
    exact (sameOrAbsent_of_isPath autoescape scopes object h).getItem (ofFloat key) line

theorem defaultAgrees_of_isPath (autoescape : Bool) (scopes : List Scope) {path : Expr}
    (h : IsPath path) : DefaultAgrees autoescape scopes path := by
  intro e he _
  rcases sameOrAbsent_of_isPath autoescape scopes path h with ⟨value, hvalue, -⟩ | habsent
  · simp [hvalue] at he
  · exact ⟨plain .null, habsent, rfl⟩

/-- All inputs of `default` among these expressions are paths. -/
def DefaultsOfPaths (parts : List Expr) : Prop :=
  ∀ line input args, .filter line "default" input args ∈ parts → IsPath input

theorem DefaultsOfPaths.mono {parts more : List Expr} (h : DefaultsOfPaths more)
    (hparts : ∀ part ∈ parts, part ∈ more) : DefaultsOfPaths parts :=
  fun line input args hpart => h line input args (hparts _ hpart)

mutual

theorem defaultsAgree_of_paths (autoescape : Bool) (scopes : List Scope) :
    (expr : Expr) → DefaultsOfPaths expr.parts → DefaultsAgree autoescape scopes expr
  | .null _, _ | .bool _ _, _ | .number _ _, _ | .string _ _, _ | .name _ _, _ => by
    rw [DefaultsAgree]
    trivial
  | .array _ items, h => by
    rw [DefaultsAgree]
    exact defaultsAgreeInAll_of_paths autoescape scopes items
      (h.mono fun part hpart => by simp [Expr.parts, hpart])
  | .attr _ object _, h => by
    rw [DefaultsAgree]
    exact defaultsAgree_of_paths autoescape scopes object
      (h.mono fun part hpart => by simp [Expr.parts, hpart])
  | .item _ object index, h => by
    rw [DefaultsAgree]
    exact ⟨defaultsAgree_of_paths autoescape scopes object
        (h.mono fun part hpart => by simp [Expr.parts, hpart]),
      defaultsAgree_of_paths autoescape scopes index
        (h.mono fun part hpart => by simp [Expr.parts, hpart])⟩
  | .unary _ _ operand, h => by
    rw [DefaultsAgree]
    exact defaultsAgree_of_paths autoescape scopes operand
      (h.mono fun part hpart => by simp [Expr.parts, hpart])
  | .binary _ _ left right, h => by
    rw [DefaultsAgree]
    exact ⟨defaultsAgree_of_paths autoescape scopes left
        (h.mono fun part hpart => by simp [Expr.parts, hpart]),
      fun _ _ _ => defaultsAgree_of_paths autoescape scopes right
        (h.mono fun part hpart => by simp [Expr.parts, hpart])⟩
  | .filter line name input args, h => by
    rw [DefaultsAgree]
    refine ⟨?_, fun _ _ => ?_, ?_⟩
    · rintro rfl
      exact defaultAgrees_of_isPath autoescape scopes (h line input args (by simp [Expr.parts]))
    · exact defaultsAgree_of_paths autoescape scopes input
        (h.mono fun part hpart => by simp [Expr.parts, hpart])
    · exact defaultsAgreeInAll_of_paths autoescape scopes args
        (h.mono fun part hpart => by simp [Expr.parts, hpart])

theorem defaultsAgreeInAll_of_paths (autoescape : Bool) (scopes : List Scope) :
    (exprs : List Expr) → DefaultsOfPaths (partsOfExprs exprs) →
      DefaultsAgreeInAll autoescape scopes exprs
  | [], _ => by
    rw [DefaultsAgreeInAll]
    trivial
  | expr :: exprs, h => by
    rw [DefaultsAgreeInAll]
    exact ⟨defaultsAgree_of_paths autoescape scopes expr
        (h.mono fun part hpart => by simp [partsOfExprs, hpart]),
      defaultsAgreeInAll_of_paths autoescape scopes exprs
        (h.mono fun part hpart => by simp [partsOfExprs, hpart])⟩

end

mutual

theorem defaultsAgreeInNode_of_paths (autoescape : Bool) :
    (node : Node) → ∀ scopes, DefaultsOfPaths node.exprs →
      DefaultsAgreeInNode autoescape scopes node
  | .text _ _ => fun _ _ => by
    rw [DefaultsAgreeInNode]
    trivial
  | .print _ expr => fun scopes h => by
    rw [DefaultsAgreeInNode]
    exact defaultsAgree_of_paths autoescape scopes expr h
  | .choice _ branches otherwise => fun scopes h => by
    rw [DefaultsAgreeInNode]
    exact ⟨defaultsAgreeInBranches_of_paths autoescape branches scopes
        (h.mono fun part hpart => by simp [Node.exprs, hpart]),
      fun _ => defaultsAgreeInBody_of_paths autoescape otherwise scopes
        (h.mono fun part hpart => by simp [Node.exprs, hpart])⟩
  | .loop _ key target iterable body otherwise => fun scopes h => by
    rw [DefaultsAgreeInNode]
    refine ⟨?_, fun value _ => ⟨fun _ => ?_, fun scope _ => ?_⟩⟩
    · exact defaultsAgree_of_paths autoescape scopes iterable
        (h.mono fun part hpart => by simp [Node.exprs, hpart])
    · exact defaultsAgreeInBody_of_paths autoescape otherwise scopes
        (h.mono fun part hpart => by simp [Node.exprs, hpart])
    · exact defaultsAgreeInNodes_of_paths autoescape body (scope :: scopes)
        (h.mono fun part hpart => by simp [Node.exprs, hpart])
  | .block _ _ body => fun scopes h => by
    rw [DefaultsAgreeInNode]
    exact defaultsAgreeInNodes_of_paths autoescape body scopes h
  | .comment _ _ _ => fun _ _ => by
    rw [DefaultsAgreeInNode]
    trivial

theorem defaultsAgreeInNodes_of_paths (autoescape : Bool) :
    (nodes : List Node) → ∀ scopes, DefaultsOfPaths (exprsOfNodes nodes) →
      DefaultsAgreeInNodes autoescape scopes nodes
  | [] => fun _ _ => by
    rw [DefaultsAgreeInNodes]
    trivial
  | node :: nodes => fun scopes h => by
    rw [DefaultsAgreeInNodes]
    exact ⟨defaultsAgreeInNode_of_paths autoescape node scopes
        (h.mono fun part hpart => by simp [exprsOfNodes, hpart]),
      defaultsAgreeInNodes_of_paths autoescape nodes scopes
        (h.mono fun part hpart => by simp [exprsOfNodes, hpart])⟩

theorem defaultsAgreeInBranches_of_paths (autoescape : Bool) :
    (branches : List Branch) → ∀ scopes, DefaultsOfPaths (exprsOfBranches branches) →
      DefaultsAgreeInBranches autoescape scopes branches
  | [] => fun _ _ => by
    rw [DefaultsAgreeInBranches]
    trivial
  | .mk condition body :: branches => fun scopes h => by
    rw [DefaultsAgreeInBranches]
    refine ⟨?_, fun value _ => ?_⟩
    · exact defaultsAgree_of_paths autoescape scopes condition
        (h.mono fun part hpart => by simp [exprsOfBranches, hpart])
    · split
      · exact defaultsAgreeInNodes_of_paths autoescape body scopes
          (h.mono fun part hpart => by simp [exprsOfBranches, hpart])
      · exact defaultsAgreeInBranches_of_paths autoescape branches scopes
          (h.mono fun part hpart => by simp [exprsOfBranches, hpart])

theorem defaultsAgreeInBody_of_paths (autoescape : Bool) :
    (otherwise : Option (List Node)) → ∀ scopes, DefaultsOfPaths (exprsOfBody otherwise) →
      DefaultsAgreeInBody autoescape scopes otherwise
  | none => fun _ _ => by
    rw [DefaultsAgreeInBody]
    trivial
  | some body => fun scopes h => by
    rw [DefaultsAgreeInBody]
    exact defaultsAgreeInNodes_of_paths autoescape body scopes h

end

/-- What renders strictly renders alike without errors for undefined names and keys, if all defaults
agree that the strict rendering applies. Those of names and paths always agree, and so they do in
a document that has no others. -/
theorem ofDocument_lenient_of_strict (autoescape : Bool) (document : Document) (context : Json) :
    (∀ output, DefaultsAgreeInNodes autoescape [rootScope context] document.nodes →
      ofDocument ⟨autoescape, true⟩ document context = .ok output →
      ofDocument ⟨autoescape, false⟩ document context = .ok output) ∧
    (∀ scopes path, IsPath path → DefaultAgrees autoescape scopes path) ∧
    (DefaultsOfPaths document.exprs →
      DefaultsAgreeInNodes autoescape [rootScope context] document.nodes) :=
  ⟨fun output hdefaults h => renderNodes_carries autoescape document.nodes _ hdefaults output h,
    fun scopes _ hpath => defaultAgrees_of_isPath autoescape scopes hpath,
    fun hpaths => defaultsAgreeInNodes_of_paths autoescape document.nodes _ hpaths⟩

/-- The title of a page without one, twice: under a default of its own, and in a loop under one. -/
theorem ofDocument_lenient_of_strict_title :
    ∃ document context,
      DefaultsOfPaths document.exprs ∧
      DefaultsAgreeInNodes true [rootScope context] document.nodes ∧
      ofDocument ⟨true, true⟩ document context = .ok "none1none2none" ∧
      ofDocument ⟨true, false⟩ document context = .ok "none1none2none" := by
  let title : Expr := .filter 1 "default" (.attr 1 (.name 1 "page") "title") [.string 1 "none"]
  let document : Document := ⟨"page", [.print 1 title, .loop 2 none "x" (.name 2 "xs")
    [.print 2 (.name 2 "x"), .print 2 title] none]⟩
  let context : Json := .object [("page", .object []), ("xs", .array [.int 1, .int 2])]
  have hpaths : DefaultsOfPaths document.exprs := by
    intro line input args hpart
    simp [document, title, Document.exprs, exprsOfNodes, Node.exprs, Expr.parts, partsOfExprs,
      exprsOfBody] at hpart
    obtain ⟨-, rfl, -⟩ := hpart
    trivial
  have hstrict : ofDocument ⟨true, true⟩ document context = .ok "none1none2none" := by rfl
  obtain ⟨hlenient, -, hagree⟩ := ofDocument_lenient_of_strict true document context
  exact ⟨document, context, hpaths, hagree hpaths, hstrict, hlenient _ (hagree hpaths) hstrict⟩

/-- An undefined name joined with a text has a default in strict rendering only. -/
theorem exists_strict_output_ne_lenient :
    ∃ document context,
      ofDocument ⟨true, true⟩ document context = .ok "d" ∧
      ofDocument ⟨true, false⟩ document context = .ok "a" := by
  refine ⟨⟨"page", [.print 1 (.filter 1 "default"
    (.binary 1 .concat (.name 1 "x") (.string 1 "a")) [.string 1 "d"])]⟩, .object [], ?_, ?_⟩
  · rfl
  · rfl

end TemplateEngine.Render
