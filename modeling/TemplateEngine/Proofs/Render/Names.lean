import TemplateEngine.Proofs.Document.Expressions
import TemplateEngine.Render

/-!
The names of a context that rendering looks at. Main statement: two contexts that give the same
values to the names in a document render it alike, to the same output or to the same error.
-/

namespace TemplateEngine.Render

/-- Scopes that give the same value to every name among the expressions, or both none. -/
def AgreeOn (exprs : List Expr) (scopes scopes' : List Scope) : Prop :=
  ∀ line name, .name line name ∈ exprs → find? scopes name = find? scopes' name

section

variable {expr : Expr} {exprs more : List Expr} {scopes scopes' : List Scope}

theorem AgreeOn.tail (h : AgreeOn (expr :: exprs) scopes scopes') :
    AgreeOn exprs scopes scopes' :=
  fun line name hname => h line name (List.mem_cons_of_mem _ hname)

theorem agreeOn_append :
    AgreeOn (exprs ++ more) scopes scopes' ↔
      AgreeOn exprs scopes scopes' ∧ AgreeOn more scopes scopes' := by
  constructor
  · intro h
    constructor
    · exact fun line name hname => h line name (List.mem_append_left _ hname)
    · exact fun line name hname => h line name (List.mem_append_right _ hname)
  · rintro ⟨hexprs, hmore⟩ line name hname
    rcases List.mem_append.1 hname with hname | hname
    · exact hexprs line name hname
    · exact hmore line name hname

theorem find?_cons (scope : Scope) (scopes : List Scope) (name : String) :
    find? (scope :: scopes) name = (scope.lookup name).or (find? scopes name) := by
  unfold find?
  rw [List.findSome?_cons]
  cases scope.lookup name <;> rfl

/-- Inside a loop both sides see the names of the loop first. -/
theorem AgreeOn.push (h : AgreeOn exprs scopes scopes') (scope : Scope) :
    AgreeOn exprs (scope :: scopes) (scope :: scopes') := by
  intro line name hname
  rw [find?_cons, find?_cons, h line name hname]

end

section

variable (options : Options) {scopes scopes' : List Scope}

mutual

theorem eval_eq_of_agreeOn :
    (expr : Expr) → AgreeOn expr.parts scopes scopes' →
      eval options scopes expr = eval options scopes' expr
  | .null _, _ | .bool _ _, _ | .number _ _, _ | .string _ _, _ => by simp only [eval]
  | .name line name, h => by
    have hvalue : find? scopes name = find? scopes' name := h line name (by simp [Expr.parts])
    simp only [eval, hvalue]
  | .array _ items, h => by
    rw [Expr.parts] at h
    simp only [eval, evalAll_eq_of_agreeOn items h.tail]
  | .attr _ object _, h => by
    rw [Expr.parts] at h
    simp only [eval, eval_eq_of_agreeOn object h.tail]
  | .item _ object index, h => by
    rw [Expr.parts] at h
    obtain ⟨hobject, hindex⟩ := agreeOn_append.1 h.tail
    simp only [eval, eval_eq_of_agreeOn object hobject, eval_eq_of_agreeOn index hindex]
  | .unary _ _ operand, h => by
    rw [Expr.parts] at h
    simp only [eval, eval_eq_of_agreeOn operand h.tail]
  | .binary _ _ left right, h => by
    rw [Expr.parts] at h
    obtain ⟨hleft, hright⟩ := agreeOn_append.1 h.tail
    simp only [eval, eval_eq_of_agreeOn left hleft, eval_eq_of_agreeOn right hright]
  | .filter _ _ input args, h => by
    rw [Expr.parts] at h
    obtain ⟨hinput, hargs⟩ := agreeOn_append.1 h.tail
    simp only [eval, eval_eq_of_agreeOn input hinput, evalAll_eq_of_agreeOn args hargs]

theorem evalAll_eq_of_agreeOn :
    (exprs : List Expr) → AgreeOn (partsOfExprs exprs) scopes scopes' →
      evalAll options scopes exprs = evalAll options scopes' exprs
  | [], _ => by simp only [evalAll]
  | expr :: exprs, h => by
    rw [partsOfExprs] at h
    obtain ⟨hexpr, hexprs⟩ := agreeOn_append.1 h
    simp only [evalAll, eval_eq_of_agreeOn expr hexpr, evalAll_eq_of_agreeOn exprs hexprs]

end

end

section

variable (options : Options)

mutual

theorem renderNode_eq_of_agreeOn :
    (node : Node) → ∀ {scopes scopes'}, AgreeOn node.exprs scopes scopes' →
      renderNode options scopes node = renderNode options scopes' node
  | .text _ _ => fun _ => by simp only [renderNode]
  | .print _ expr => fun h => by
    rw [Node.exprs] at h
    simp only [renderNode, eval_eq_of_agreeOn options expr h]
  | .choice _ branches otherwise => fun h => by
    rw [Node.exprs] at h
    obtain ⟨hbranches, hotherwise⟩ := agreeOn_append.1 h
    simp only [renderNode, renderBranches_eq_of_agreeOn branches hbranches,
      renderOtherwise_eq_of_agreeOn otherwise hotherwise]
  | .loop _ _ _ iterable body otherwise => fun h => by
    rw [Node.exprs] at h
    obtain ⟨hiterable, hrest⟩ := agreeOn_append.1 h
    obtain ⟨hbody, hotherwise⟩ := agreeOn_append.1 hrest
    have hbodies := fun scope => renderNodes_eq_of_agreeOn body (hbody.push scope)
    simp only [renderNode, eval_eq_of_agreeOn options iterable hiterable, hbodies,
      renderOtherwise_eq_of_agreeOn otherwise hotherwise]
  | .block _ _ body => fun h => by
    rw [Node.exprs] at h
    simp only [renderNode, renderNodes_eq_of_agreeOn body h]
  | .comment _ _ _ => fun _ => by simp only [renderNode]

theorem renderNodes_eq_of_agreeOn :
    (nodes : List Node) → ∀ {scopes scopes'}, AgreeOn (exprsOfNodes nodes) scopes scopes' →
      renderNodes options scopes nodes = renderNodes options scopes' nodes
  | [] => fun _ => by simp only [renderNodes]
  | node :: nodes => fun h => by
    rw [exprsOfNodes] at h
    obtain ⟨hnode, hnodes⟩ := agreeOn_append.1 h
    simp only [renderNodes, renderNode_eq_of_agreeOn node hnode,
      renderNodes_eq_of_agreeOn nodes hnodes]

theorem renderBranches_eq_of_agreeOn :
    (branches : List Branch) → ∀ {scopes scopes'},
      AgreeOn (exprsOfBranches branches) scopes scopes' →
        renderBranches options scopes branches = renderBranches options scopes' branches
  | [] => fun _ => by simp only [renderBranches]
  | .mk condition body :: branches => fun h => by
    rw [exprsOfBranches] at h
    obtain ⟨hcondition, hrest⟩ := agreeOn_append.1 h
    obtain ⟨hbody, hbranches⟩ := agreeOn_append.1 hrest
    simp only [renderBranches, eval_eq_of_agreeOn options condition hcondition,
      renderNodes_eq_of_agreeOn body hbody, renderBranches_eq_of_agreeOn branches hbranches]

theorem renderOtherwise_eq_of_agreeOn :
    (otherwise : Option (List Node)) → ∀ {scopes scopes'},
      AgreeOn (exprsOfBody otherwise) scopes scopes' →
        renderOtherwise options scopes otherwise = renderOtherwise options scopes' otherwise
  | none => fun _ => by simp only [renderOtherwise]
  | some body => fun h => by
    rw [exprsOfBody] at h
    simp only [renderOtherwise, renderNodes_eq_of_agreeOn body h]

end

end

/-- Contexts that give the same value, or both none, to every name in a document render it
alike. -/
theorem ofDocument_eq_of_same_names (options : Options) (document : Document)
    {fields fields' : List (String × Json)}
    (h : ∀ line name, .name line name ∈ document.exprs →
      fields.lookup name = fields'.lookup name) :
    ofDocument options document (.object fields) =
      ofDocument options document (.object fields') := by
  apply renderNodes_eq_of_agreeOn
  intro line name hname
  have hlookup : fields.lookup name = fields'.lookup name := h line name hname
  show find? [fields] name = find? [fields'] name
  rw [find?_cons, find?_cons, hlookup]

/-- A loop over a name of the context, with a filter on the way. Only `items`, `title` and `x`
count: a third name differs, and so does the order of the fields. -/
theorem ofDocument_eq_of_same_names_loop :
    ∃ (document : Document) (fields fields' : List (String × Json)),
      fields.lookup "secret" ≠ fields'.lookup "secret" ∧
      (∀ line name, .name line name ∈ document.exprs →
        fields.lookup name = fields'.lookup name) ∧
      ∀ options, ofDocument options document (.object fields) =
        ofDocument options document (.object fields') := by
  let document : Document := ⟨"page",
    [.loop 1 none "x" (.name 1 "items") [.print 2 (.filter 2 "upper" (.name 2 "x") [])] none,
      .print 3 (.name 3 "title")]⟩
  let fields : List (String × Json) :=
    [("items", .array [.string "a"]), ("secret", .string "b"), ("title", .string "c")]
  let fields' : List (String × Json) :=
    [("secret", .string "d"), ("title", .string "c"), ("items", .array [.string "a"])]
  have hnames : ∀ line name, .name line name ∈ document.exprs →
      fields.lookup name = fields'.lookup name := by
    intro line name hname
    have hcases : line = 1 ∧ name = "items" ∨ line = 2 ∧ name = "x" ∨
        line = 3 ∧ name = "title" := by
      simpa [document, Document.exprs, exprsOfNodes, exprsOfBody, Node.exprs, Expr.parts,
        partsOfExprs] using hname
    rcases hcases with ⟨-, rfl⟩ | ⟨-, rfl⟩ | ⟨-, rfl⟩ <;> rfl
  have hsecret : fields.lookup "secret" ≠ fields'.lookup "secret" := by
    show some (Json.string "b") ≠ some (Json.string "d")
    simp
  exact ⟨document, fields, fields', hsecret, hnames, fun options =>
    ofDocument_eq_of_same_names options document hnames⟩

end TemplateEngine.Render
