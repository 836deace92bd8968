import TemplateEngine.Environment

/-!
Adding children to a node in place: the body that takes them is chosen first and grows then. A node
that takes no children is left as it is, and the fault is an error of parsing without a line.
-/

namespace TemplateEngine.Node

structure OpenBody where
  nodes : List Node
  close : List Node → Node

/-- The body that takes the children of a node: its last one. -/
def openBody : Node → Except ChildFault OpenBody
  | .text _ _ => .error .ofText
  | .print _ _ => .error .ofPrint
  | .comment _ _ _ => .error .ofComment
  | .block line name body => .ok ⟨body, .block line name⟩
  | .loop line key target iterable body (some otherwise) =>
    .ok ⟨otherwise, fun nodes => .loop line key target iterable body (some nodes)⟩
  | .loop line key target iterable body none =>
    .ok ⟨body, fun nodes => .loop line key target iterable nodes none⟩
  | .choice line branches (some otherwise) =>
    .ok ⟨otherwise, fun nodes => .choice line branches (some nodes)⟩
  | .choice line branches none =>
    match branches.getLast? with
    | some last =>
      .ok ⟨last.body, fun nodes =>
        .choice line (branches.dropLast ++ [.mk last.condition nodes]) none⟩
    | none => .error .withoutBranch

def push (child : Node) : EStateM ParseError Node Unit := do
  match (← get).openBody with
  | .ok body => set (body.close (body.nodes ++ [child]))
  | .error fault => throw (.invalid fault.message)

/-- Adds children to a node one after another, and goes on behind one that it does not take. Gives
the children that it took, and the node behind them. -/
def pushEach : List Node → Node → List Node × Node
  | [], node => ([], node)
  | child :: children, node =>
    match push child node with
    | .ok () node =>
      let (taken, last) := pushEach children node
      (child :: taken, last)
    | .error _ node => pushEach children node

end TemplateEngine.Node
