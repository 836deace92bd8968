import TemplateEngine.Render
import TemplateEngine.Script

/-!
Documents without their hidden comments. Main statements: they render alike and compile to the same
script.
-/

namespace TemplateEngine

def Node.isHidden : Node → Bool
  | .comment _ _ exposed => !exposed
  | _ => false

mutual

def Node.visible : Node → Node
  | .text line text => .text line text
  | .print line expr => .print line expr
  | .choice line branches otherwise =>
    .choice line (visibleBranches branches) (visibleBody otherwise)
  | .loop line key target iterable body otherwise =>
    .loop line key target iterable (visibleNodes body) (visibleBody otherwise)
  | .block line name body => .block line name (visibleNodes body)
  | .comment line text exposed => .comment line text exposed

def visibleNodes : List Node → List Node
  | [] => []
  | node :: nodes =>
    if node.isHidden then visibleNodes nodes else node.visible :: visibleNodes nodes

def visibleBranches : List Branch → List Branch
  | [] => []
  | .mk condition body :: branches => .mk condition (visibleNodes body) :: visibleBranches branches

def visibleBody : Option (List Node) → Option (List Node)
  | none => none
  | some body => some (visibleNodes body)

end

/-- A document without its hidden comments. -/
def Document.visible (document : Document) : Document :=
  { document with nodes := visibleNodes document.nodes }

theorem visibleNodes_cons {node : Node} (h : node.isHidden = false) (nodes : List Node) :
    visibleNodes (node :: nodes) = node.visible :: visibleNodes nodes := by
  rw [visibleNodes, h]
  rfl

namespace Render

mutual

theorem renderNode_visible (options : Options) :
    (node : Node) →
      ∀ scopes, renderNode options scopes node.visible = renderNode options scopes node
  | .text _ _ => fun _ => rfl
  | .print _ _ => fun _ => rfl
  | .choice _ branches otherwise => fun scopes => by
    simp only [Node.visible, renderNode, renderBranches_visible options branches,
      renderOtherwise_visible options otherwise]
  | .loop _ _ _ _ body otherwise => fun scopes => by
    simp only [Node.visible, renderNode, renderNodes_visible options body,
      renderOtherwise_visible options otherwise]
  | .block _ _ body => fun scopes => by
    simp only [Node.visible, renderNode, renderNodes_visible options body]
  | .comment _ _ _ => fun _ => rfl

theorem renderNodes_visible (options : Options) :
    (nodes : List Node) → ∀ scopes,
      renderNodes options scopes (visibleNodes nodes) = renderNodes options scopes nodes
  | [] => fun _ => rfl
  | node :: nodes => fun scopes => by
    have hrest := renderNodes_visible options nodes scopes
    by_cases hhidden : node.isHidden = true
    · have hempty : renderNode options scopes node = .ok "" := by
        cases node <;> first | rfl | simp [Node.isHidden] at hhidden
      rw [visibleNodes, if_pos hhidden, hrest, renderNodes, hempty]
      cases renderNodes options scopes nodes <;> simp [bind, Except.bind, pure, Except.pure]
    · rw [visibleNodes, if_neg hhidden, renderNodes, renderNodes, hrest,
        renderNode_visible options node]

theorem renderBranches_visible (options : Options) :
    (branches : List Branch) → ∀ scopes,
      renderBranches options scopes (visibleBranches branches) =
        renderBranches options scopes branches
  | [] => fun _ => rfl
  | .mk _ body :: branches => fun scopes => by
    simp only [visibleBranches, renderBranches, renderNodes_visible options body,
      renderBranches_visible options branches]

theorem renderOtherwise_visible (options : Options) :
    (otherwise : Option (List Node)) → ∀ scopes,
      renderOtherwise options scopes (visibleBody otherwise) =
        renderOtherwise options scopes otherwise
  | none => fun _ => rfl
  | some body => fun scopes => by
    simp only [visibleBody, renderOtherwise, renderNodes_visible options body]

end

/-- Hidden comments leave no trace in the output. -/
theorem ofDocument_visible (options : Options) (document : Document) (context : Json) :
    ofDocument options document.visible context = ofDocument options document context :=
  renderNodes_visible options document.nodes _

end Render

namespace Script

mutual

theorem writeNode_visible (options : Options) :
    (node : Node) → writeNode options node.visible = writeNode options node
  | .text _ _ => rfl
  | .print _ _ => rfl
  | .choice _ branches otherwise => by
    simp only [Node.visible, writeNode, writeBranches_visible options branches,
      writeOtherwise_visible options otherwise]
  | .loop _ _ _ _ body otherwise => by
    simp only [Node.visible, writeNode, writeNodes_visible options body,
      writeEmptyCase_visible options otherwise]
  | .block _ _ body => by
    simp only [Node.visible, writeNode, writeNodes_visible options body]
  | .comment _ _ _ => rfl

theorem writeNodes_visible (options : Options) :
    (nodes : List Node) → writeNodes options (visibleNodes nodes) = writeNodes options nodes
  | [] => rfl
  | node :: nodes => by
    have hrest := writeNodes_visible options nodes
    by_cases hhidden : node.isHidden = true
    · have hnothing : writeNode options node = pure () := by
        cases node <;> simp_all [Node.isHidden, writeNode]
      rw [visibleNodes, if_pos hhidden, hrest, writeNodes, hnothing, pure_bind]
    · rw [visibleNodes, if_neg hhidden, writeNodes, writeNodes, hrest,
        writeNode_visible options node]

theorem writeBranches_visible (options : Options) :
    (branches : List Branch) → ∀ isFirst,
      writeBranches options isFirst (visibleBranches branches) =
        writeBranches options isFirst branches
  | [] => fun _ => rfl
  | .mk _ body :: branches => fun isFirst => by
    simp only [visibleBranches, writeBranches, writeNodes_visible options body,
      writeBranches_visible options branches]

theorem writeOtherwise_visible (options : Options) :
    (otherwise : Option (List Node)) →
      writeOtherwise options (visibleBody otherwise) = writeOtherwise options otherwise
  | none => rfl
  | some body => by
    simp only [visibleBody, writeOtherwise, writeNodes_visible options body]

theorem writeEmptyCase_visible (options : Options) :
    (otherwise : Option (List Node)) → ∀ items,
      writeEmptyCase options items (visibleBody otherwise) = writeEmptyCase options items otherwise
  | none => fun _ => rfl
  | some body => fun items => by
    simp only [visibleBody, writeEmptyCase, writeNodes_visible options body]

end

/-- Hidden comments leave no trace in the script. -/
theorem ofDocument_visible (options : Options) (document : Document) :
    ofDocument options document.visible = ofDocument options document := by
  unfold ofDocument writeModule
  simp only [Document.visible, writeNodes_visible]

end Script

end TemplateEngine
