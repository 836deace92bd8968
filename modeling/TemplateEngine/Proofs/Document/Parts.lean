import TemplateEngine.Proofs.Document.Expressions

/-!
The nodes that stand in a document, at every depth. What stands in a part of a node stands in the
node.
-/

namespace TemplateEngine

mutual

def Node.parts : Node → List Node
  | .text line text => [.text line text]
  | .print line expr => [.print line expr]
  | .choice line branches otherwise =>
    .choice line branches otherwise :: (partsOfBranches branches ++ partsOfBody otherwise)
  | .loop line key target iterable body otherwise =>
    .loop line key target iterable body otherwise :: (partsOfNodes body ++ partsOfBody otherwise)
  | .block line name body => .block line name body :: partsOfNodes body
  | .comment line text exposed => [.comment line text exposed]

def partsOfNodes : List Node → List Node
  | [] => []
  | node :: nodes => node.parts ++ partsOfNodes nodes

def partsOfBranches : List Branch → List Node
  | [] => []
  | .mk _ body :: branches => partsOfNodes body ++ partsOfBranches branches

def partsOfBody : Option (List Node) → List Node
  | none => []
  | some body => partsOfNodes body

end

/-- All nodes of a document, at every depth. -/
def Document.parts (document : Document) : List Node :=
  partsOfNodes document.nodes

theorem Node.mem_parts_self (node : Node) : node ∈ node.parts := by
  cases node <;> simp [Node.parts]

theorem subset_partsOfNodes (nodes : List Node) : nodes ⊆ partsOfNodes nodes := by
  induction nodes with
  | nil => exact List.nil_subset _
  | cons node nodes ih =>
    rw [partsOfNodes]
    exact List.cons_subset.2 ⟨List.mem_append_left _ node.mem_parts_self,
      List.subset_append_of_subset_right _ ih⟩

structure Node.IsIn (node : Node) (nodes : List Node) (exprs : List Expr) : Prop where
  parts : node.parts ⊆ nodes
  exprs : node.exprs ⊆ exprs

section

variable {node : Node} {nodes more : List Node} {exprs others : List Expr}

theorem Node.isIn_self (node : Node) : node.IsIn node.parts node.exprs :=
  ⟨List.Subset.refl _, List.Subset.refl _⟩

theorem Node.IsIn.left (h : node.IsIn nodes exprs) (more : List Node) (others : List Expr) :
    node.IsIn (nodes ++ more) (exprs ++ others) :=
  ⟨List.subset_append_of_subset_left _ h.parts, List.subset_append_of_subset_left _ h.exprs⟩

theorem Node.IsIn.right (h : node.IsIn nodes exprs) (more : List Node) (others : List Expr) :
    node.IsIn (more ++ nodes) (others ++ exprs) :=
  ⟨List.subset_append_of_subset_right _ h.parts, List.subset_append_of_subset_right _ h.exprs⟩

/-- What is in the bodies of a node is in the node. -/
theorem Node.IsIn.below (h : node.IsIn nodes exprs) (top : Node) (others : List Expr) :
    node.IsIn (top :: nodes) (others ++ exprs) :=
  h.right [top] others

end

mutual

theorem Node.isIn_of_mem_parts :
    (node : Node) → ∀ part ∈ node.parts, part.IsIn node.parts node.exprs
  | .text _ _ | .print _ _ | .comment _ _ _ => by
    intro part hpart
    obtain rfl := List.mem_singleton.1 hpart
    exact Node.isIn_self _
  | .choice _ branches otherwise => by
    intro part hpart
    rcases List.mem_cons.1 hpart with rfl | hpart
    · exact Node.isIn_self _
    · apply Node.IsIn.below _ _ []
      rcases List.mem_append.1 hpart with hpart | hpart
      · exact (isIn_of_mem_partsOfBranches branches part hpart).left _ _
      · exact (isIn_of_mem_partsOfBody otherwise part hpart).right _ _
  | .loop _ _ _ iterable body otherwise => by
    intro part hpart
    rcases List.mem_cons.1 hpart with rfl | hpart
    · exact Node.isIn_self _
    · apply Node.IsIn.below _ _ iterable.parts
      rcases List.mem_append.1 hpart with hpart | hpart
      · exact (isIn_of_mem_partsOfNodes body part hpart).left _ _
      · exact (isIn_of_mem_partsOfBody otherwise part hpart).right _ _
  | .block _ _ body => by
    intro part hpart
    rcases List.mem_cons.1 hpart with rfl | hpart
    · exact Node.isIn_self _
    · exact (isIn_of_mem_partsOfNodes body part hpart).below _ []

theorem isIn_of_mem_partsOfNodes :
    (nodes : List Node) → ∀ part ∈ partsOfNodes nodes,
      part.IsIn (partsOfNodes nodes) (exprsOfNodes nodes)
  | [] => by
    simp [partsOfNodes]
  | node :: nodes => by
    intro part hpart
    rcases List.mem_append.1 hpart with hpart | hpart
    · exact (node.isIn_of_mem_parts part hpart).left _ _
    · exact (isIn_of_mem_partsOfNodes nodes part hpart).right _ _

theorem isIn_of_mem_partsOfBranches :
    (branches : List Branch) → ∀ part ∈ partsOfBranches branches,
      part.IsIn (partsOfBranches branches) (exprsOfBranches branches)
  | [] => by
    simp [partsOfBranches]
  | .mk condition body :: branches => by
    intro part hpart
    rw [partsOfBranches, exprsOfBranches]
    rcases List.mem_append.1 hpart with hpart | hpart
    · exact ((isIn_of_mem_partsOfNodes body part hpart).left _ _).right [] condition.parts
    · exact ((isIn_of_mem_partsOfBranches branches part hpart).right _ _).right [] condition.parts

theorem isIn_of_mem_partsOfBody :
    (otherwise : Option (List Node)) → ∀ part ∈ partsOfBody otherwise,
      part.IsIn (partsOfBody otherwise) (exprsOfBody otherwise)
  | none => by
    simp [partsOfBody]
  | some body => isIn_of_mem_partsOfNodes body

end

/-- A node anywhere in a document has its parts and expressions from the document. -/
theorem Document.isIn_of_mem_parts {document : Document} {node : Node} (h : node ∈ document.parts) :
    node.IsIn document.parts document.exprs :=
  isIn_of_mem_partsOfNodes document.nodes node h

end TemplateEngine
