import TemplateEngine.Expr

/-!
Documents: templates as trees of text, print tags, branches, loops, blocks and comments.
-/

namespace TemplateEngine

mutual

inductive Node where
  | text (line : Nat) (text : String)
  | print (line : Nat) (expr : Expr)
  | choice (line : Nat) (branches : List Branch) (otherwise : Option (List Node))
  | loop (line : Nat) (key : Option String) (target : String) (iterable : Expr) (body : List Node)
      (otherwise : Option (List Node))
  | block (line : Nat) (name : String) (body : List Node)
  | comment (line : Nat) (text : String) (exposed : Bool)

inductive Branch where
  | mk (condition : Expr) (body : List Node)

end

instance : Inhabited Node := ⟨.text 0 ""⟩

namespace Branch

def condition : Branch → Expr
  | mk condition _ => condition

def body : Branch → List Node
  | mk _ body => body

def append (child : Node) : Branch → Branch
  | mk condition body => mk condition (body ++ [child])

end Branch

structure Document where
  name : String
  nodes : List Node

structure Comment where
  line : Nat
  text : String
  exposed : Bool
  deriving Repr, DecidableEq

mutual

/-- The comments in a node, in document order. -/
def Node.comments : Node → List Comment
  | .text _ _ => []
  | .print _ _ => []
  | .choice _ branches otherwise => commentsOfBranches branches ++ commentsOfBody otherwise
  | .loop _ _ _ _ body otherwise => commentsOfNodes body ++ commentsOfBody otherwise
  | .block _ _ body => commentsOfNodes body
  | .comment line text exposed => [⟨line, text, exposed⟩]

def commentsOfNodes : List Node → List Comment
  | [] => []
  | node :: nodes => node.comments ++ commentsOfNodes nodes

def commentsOfBranches : List Branch → List Comment
  | [] => []
  | .mk _ body :: branches => commentsOfNodes body ++ commentsOfBranches branches

def commentsOfBody : Option (List Node) → List Comment
  | none => []
  | some body => commentsOfNodes body

end

/-- The comments in a document, in document order. -/
def Document.comments (document : Document) : List Comment :=
  commentsOfNodes document.nodes

inductive ChildFault where
  | ofText
  | ofPrint
  | ofComment
  | withoutBranch
  deriving Repr, DecidableEq

def ChildFault.message : ChildFault → String
  | ofText => "TextNode cannot have children."
  | ofPrint => "PrintNode cannot have children."
  | ofComment => "CommentNode cannot have children."
  | withoutBranch => "IfNode has no branch."

def mapLast {α : Type} (f : α → α) : List α → List α
  | [] => []
  | [a] => [f a]
  | a :: b :: rest => a :: mapLast f (b :: rest)

/-- Adds a child at the end of a node: to its last body, if it has one. -/
def Node.pushChild : Node → Node → Except ChildFault Node
  | .text _ _, _ => .error .ofText
  | .print _ _, _ => .error .ofPrint
  | .comment _ _ _, _ => .error .ofComment
  | .block line name body, child => .ok (.block line name (body ++ [child]))
  | .loop line key target iterable body (some otherwise), child =>
    .ok (.loop line key target iterable body (some (otherwise ++ [child])))
  | .loop line key target iterable body none, child =>
    .ok (.loop line key target iterable (body ++ [child]) none)
  | .choice line branches (some otherwise), child =>
    .ok (.choice line branches (some (otherwise ++ [child])))
  | .choice _ [] none, _ => .error .withoutBranch
  | .choice line (branch :: branches) none, child =>
    .ok (.choice line (mapLast (Branch.append child) (branch :: branches)) none)

end TemplateEngine
