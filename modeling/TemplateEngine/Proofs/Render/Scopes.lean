import TemplateEngine.Render.Page

/-!
Writing onto a page against rendering. Main statement: whatever the scopes and the nodes, writing
leaves the scopes as they were and only adds to the output, on success and on failure alike; what it
adds is the output of rendering. So the nodes of two documents in a row render to the two outputs in
a row, and the first of the two failures is the failure of both.
-/

namespace TemplateEngine.Render

/-- In these scopes the writer comes to the outcome: it adds its text, or fails with its error after
adding some text. Nothing else on the page changes. -/
def Page.Appends (scopes : List Scope) (writer : Writer Unit) :
    Except RenderError String → Prop
  | .ok text => ∀ output, writer ⟨scopes, output⟩ = .ok () ⟨scopes, output ++ text⟩
  | .error e => ∀ output, ∃ text, writer ⟨scopes, output⟩ = .error e ⟨scopes, output ++ text⟩

namespace Page

section

variable {scopes : List Scope} {writer first second body : Writer Unit}
  {outcome x y : Except RenderError String} {options : Options}

theorem appends_emit (scopes : List Scope) (text : String) :
    Appends scopes (emit text) (.ok text) :=
  fun _ => rfl

theorem appends_pure (scopes : List Scope) : Appends scopes (pure ()) (.ok "") := by
  intro output
  show EStateM.Result.ok () (Page.mk scopes output) = .ok () ⟨scopes, output ++ ""⟩
  rw [String.append_empty]

theorem bind_of_ok {α β : Type} {writer : Writer α} {next : α → Writer β} {page page' : Page}
    {value : α} (h : writer page = .ok value page') :
    (writer >>= next) page = next value page' := by
  show EStateM.bind writer next page = _
  simp only [EStateM.bind, h]

theorem bind_of_error {α β : Type} {writer : Writer α} {next : α → Writer β} {page page' : Page}
    {e : RenderError} (h : writer page = .error e page') :
    (writer >>= next) page = .error e page' := by
  show EStateM.bind writer next page = _
  simp only [EStateM.bind, h]

/-- One writer after another comes to both texts, or to the first error of the two. -/
theorem Appends.bind (hfirst : Appends scopes first x) (hsecond : Appends scopes second y) :
    Appends scopes (first >>= fun _ => second) (do
      let a ← x
      let b ← y
      return a ++ b) := by
  cases x with
  | error e =>
    intro output
    obtain ⟨text, hfirst⟩ := hfirst output
    exact ⟨text, bind_of_error hfirst⟩
  | ok a =>
    cases y with
    | error e =>
      intro output
      obtain ⟨text, hsecond⟩ := hsecond (output ++ a)
      refine ⟨a ++ text, ?_⟩
      rw [bind_of_ok (hfirst output), hsecond, String.append_assoc]
    | ok b =>
      intro output
      show (first >>= fun _ => second) ⟨scopes, output⟩ = .ok () ⟨scopes, output ++ (a ++ b)⟩
      rw [bind_of_ok (hfirst output), hsecond (output ++ a), String.append_assoc]

/-- Evaluating an expression does not touch the page. -/
theorem Appends.evaluate_bind {expr : Expr} {next : Evaluated → Writer Unit}
    {result : Evaluated → Except RenderError String}
    (h : ∀ value, Appends scopes (next value) (result value)) :
    Appends scopes (evaluate options expr >>= next) (eval options scopes expr >>= result) := by
  cases hvalue : eval options scopes expr with
  | error e =>
    intro output
    have hstops : evaluate options expr ⟨scopes, output⟩ = .error e ⟨scopes, output⟩ := by
      simp only [evaluate, hvalue]
    refine ⟨"", ?_⟩
    rw [bind_of_error hstops, String.append_empty]
  | ok value =>
    have hgoes : ∀ output, evaluate options expr ⟨scopes, output⟩ = .ok value ⟨scopes, output⟩ := by
      intro output
      simp only [evaluate, hvalue]
    have hnext := h value
    show Appends scopes (evaluate options expr >>= next) (result value)
    cases hresult : result value with
    | error e =>
      rw [hresult] at hnext
      intro output
      obtain ⟨text, hnext⟩ := hnext output
      exact ⟨text, by rw [bind_of_ok (hgoes output), hnext]⟩
    | ok text =>
      rw [hresult] at hnext
      intro output
      rw [bind_of_ok (hgoes output), hnext output]

/-- The scope entered for a body is the one left behind it. -/
theorem Appends.inScope {scope : Scope} (h : Appends (scope :: scopes) body outcome) :
    Appends scopes (inScope scope body) outcome := by
  cases outcome with
  | error e =>
    intro output
    obtain ⟨text, h⟩ := h output
    refine ⟨text, ?_⟩
    simp only [Page.inScope, enter, h, leave, List.tail_cons]
  | ok text =>
    intro output
    simp only [Page.inScope, enter, h output, leave, List.tail_cons]

theorem Appends.repeatIn {run : Scope → Except RenderError String}
    (h : ∀ scope, Appends (scope :: scopes) body (run scope)) (passes : List Scope) :
    Appends scopes (repeatIn body passes) (repeatBody run passes) := by
  induction passes with
  | nil => exact appends_pure scopes
  | cons scope rest ih => exact (h scope).inScope.bind ih

end

section

variable (options : Options)

mutual

theorem appends_writeNode : (node : Node) → ∀ scopes,
    Appends scopes (writeNode options node) (renderNode options scopes node)
  | .text _ text, scopes => by
    rw [writeNode, renderNode]
    exact appends_emit scopes text
  | .print _ expr, scopes => by
    rw [writeNode, renderNode]
    have hprinted : (eval options scopes expr).map (printText options) =
        eval options scopes expr >>= fun printed => .ok (printText options printed) := by
      cases eval options scopes expr <;> rfl
    rw [hprinted]
    exact Appends.evaluate_bind fun printed => appends_emit scopes (printText options printed)
  | .choice _ branches otherwise, scopes => by
    rw [writeNode, renderNode]
    exact appends_writeBranches branches scopes (appends_writeOtherwise otherwise scopes)
  | .loop _ key target iterable body otherwise, scopes => by
    rw [writeNode, renderNode]
    apply Appends.evaluate_bind
    intro iterable
    cases loopItems iterable.value with
    | nil => exact appends_writeOtherwise otherwise scopes
    | cons item items =>
      exact Appends.repeatIn (fun scope => appends_writeNodes body (scope :: scopes)) _
  | .block _ _ body, scopes => by
    rw [writeNode, renderNode]
    exact appends_writeNodes body scopes
  | .comment _ _ _, scopes => by
    rw [writeNode, renderNode]
    exact appends_pure scopes

theorem appends_writeNodes : (nodes : List Node) → ∀ scopes,
    Appends scopes (writeNodes options nodes) (renderNodes options scopes nodes)
  | [], scopes => by
    rw [writeNodes, renderNodes]
    exact appends_pure scopes
  | node :: nodes, scopes => by
    rw [writeNodes, renderNodes]
    exact (appends_writeNode node scopes).bind (appends_writeNodes nodes scopes)

theorem appends_writeBranches : (branches : List Branch) → ∀ scopes,
    ∀ {otherwise : Writer Unit} {outcome : Except RenderError String},
      Appends scopes otherwise outcome →
        Appends scopes (writeBranches options otherwise branches) (do
          match ← renderBranches options scopes branches with
          | some output => return output
          | none => outcome)
  | [], scopes => by
    intro hotherwise
    rw [writeBranches, renderBranches]
    exact hotherwise
  | .mk condition body :: branches, scopes => by
    intro hotherwise
    rw [writeBranches, renderBranches, bind_assoc]
    apply Appends.evaluate_bind
    intro condition
    by_cases hholds : isTruthy condition.value = true
    · have hbody := appends_writeNodes body scopes
      simp only [hholds, ↓reduceIte]
      cases hresult : renderNodes options scopes body with
      | error e => rw [hresult] at hbody; exact hbody
      | ok output => rw [hresult] at hbody; exact hbody
    · simp only [hholds]
      exact appends_writeBranches branches scopes hotherwise

theorem appends_writeOtherwise : (otherwise : Option (List Node)) → ∀ scopes,
    Appends scopes (writeOtherwise options otherwise) (renderOtherwise options scopes otherwise)
  | none, scopes => by
    rw [writeOtherwise, renderOtherwise]
    exact appends_pure scopes
  | some body, scopes => by
    rw [writeOtherwise, renderOtherwise]
    exact appends_writeNodes body scopes

end

end

end Page

theorem renderNodes_append (options : Options) (scopes : List Scope) (nodes more : List Node) :
    renderNodes options scopes (nodes ++ more) = (do
      let first ← renderNodes options scopes nodes
      let second ← renderNodes options scopes more
      return first ++ second) := by
  induction nodes with
  | nil =>
    rw [List.nil_append, renderNodes]
    cases renderNodes options scopes more with
    | error e => rfl
    | ok second =>
      show Except.ok second = Except.ok ("" ++ second)
      rw [String.empty_append]
  | cons node nodes ih =>
    rw [List.cons_append, renderNodes, renderNodes, ih]
    cases renderNode options scopes node with
    | error e => rfl
    | ok first =>
      cases renderNodes options scopes nodes with
      | error e => rfl
      | ok second =>
        cases renderNodes options scopes more with
        | error e => rfl
        | ok third =>
          show Except.ok (first ++ (second ++ third)) = Except.ok (first ++ second ++ third)
          rw [String.append_assoc]

/-- Writing nodes onto a page, in any scopes and behind any output, adds what rendering them in
these scopes gives, or fails with the same error after adding some text; the scopes stay in both
cases. So the nodes of two documents in a row give both outputs in a row, the error of the first,
or the error of the second alone. -/
theorem writeNodes_frame_and_ofDocument_append (options : Options) :
    (∀ (nodes : List Node) (scopes : List Scope),
      Page.Appends scopes (Page.writeNodes options nodes) (renderNodes options scopes nodes)) ∧
    (∀ (document : Document) (context : Json),
      ofDocument options document context =
        match Page.writeNodes options document.nodes (Page.blank context) with
        | .ok () page => .ok page.output
        | .error e _ => .error e) ∧
    ∀ (first second : Document) (name : String) (context : Json),
      ofDocument options { name := name, nodes := first.nodes ++ second.nodes } context =
        match ofDocument options first context, ofDocument options second context with
        | .ok text, .ok more => .ok (text ++ more)
        | .ok _, .error e => .error e
        | .error e, _ => .error e := by
  refine ⟨Page.appends_writeNodes options, ?_, ?_⟩
  · intro document context
    have hnodes := Page.appends_writeNodes options document.nodes [rootScope context]
    unfold ofDocument Page.blank
    cases houtcome : renderNodes options [rootScope context] document.nodes with
    | error e =>
      rw [houtcome] at hnodes
      obtain ⟨text, hfails⟩ := hnodes ""
      rw [hfails]
    | ok text =>
      rw [houtcome] at hnodes
      rw [hnodes "", String.empty_append]
  · intro first second name context
    unfold ofDocument
    rw [renderNodes_append]
    cases renderNodes options [rootScope context] first.nodes with
    | error e => rfl
    | ok text =>
      cases renderNodes options [rootScope context] second.nodes with
      | error e => rfl
      | ok more => rfl

end TemplateEngine.Render
