import TemplateEngine.Environment.Children
import TemplateEngine.Proofs.Document.Parts

/-!
Adding children to a node. Main statement: a child that is taken stands behind everything else in
the node, in the order in which comments are collected, and nothing else in the node changes; a node
that takes no child stays as it is.
-/

namespace TemplateEngine

def Node.bodies : Node → List (List Node)
  | .text _ _ => []
  | .print _ _ => []
  | .choice _ branches otherwise => branches.map Branch.body ++ otherwise.toList
  | .loop _ _ _ _ body otherwise => body :: otherwise.toList
  | .block _ _ body => [body]
  | .comment _ _ _ => []

def Node.frame : Node → Node
  | .text line content => .text line content
  | .print line expr => .print line expr
  | .choice line branches otherwise =>
    .choice line (branches.map fun branch => .mk branch.condition []) (otherwise.map fun _ => [])
  | .loop line key target iterable _ otherwise =>
    .loop line key target iterable [] (otherwise.map fun _ => [])
  | .block line name _ => .block line name []
  | .comment line content exposed => .comment line content exposed

theorem partsOfNodes_eq_flatMap (nodes : List Node) :
    partsOfNodes nodes = nodes.flatMap Node.parts := by
  induction nodes with
  | nil => rfl
  | cons node nodes ih => rw [partsOfNodes, ih, List.flatMap_cons]

theorem partsOfBranches_eq_flatMap (branches : List Branch) :
    partsOfBranches branches = (branches.map Branch.body).flatMap partsOfNodes := by
  induction branches with
  | nil => rfl
  | cons branch branches ih =>
    obtain ⟨condition, body⟩ := branch
    rw [partsOfBranches, ih, List.map_cons, List.flatMap_cons, Branch.body]

theorem partsOfBody_eq_flatMap (otherwise : Option (List Node)) :
    partsOfBody otherwise = otherwise.toList.flatMap partsOfNodes := by
  cases otherwise <;> simp [partsOfBody]

/-- The traversal of a node visits it and then what stands in its bodies. -/
theorem Node.parts_eq_cons (node : Node) :
    node.parts = node :: node.bodies.flatMap partsOfNodes := by
  cases node <;>
    simp [Node.parts, Node.bodies, partsOfBranches_eq_flatMap, partsOfBody_eq_flatMap]

def Node.comment? : Node → Option Comment
  | .comment line content exposed => some ⟨line, content, exposed⟩
  | _ => none

mutual

/-- Comments are collected by the traversal of a node. -/
theorem Node.comments_eq_filterMap_parts :
    (node : Node) → node.comments = node.parts.filterMap Node.comment?
  | .text _ _ => rfl
  | .print _ _ => rfl
  | .choice _ branches otherwise => by
    rw [Node.comments, Node.parts, List.filterMap_cons_none rfl, List.filterMap_append,
      commentsOfBranches_eq_filterMap_parts branches, commentsOfBody_eq_filterMap_parts otherwise]
  | .loop _ _ _ _ body otherwise => by
    rw [Node.comments, Node.parts, List.filterMap_cons_none rfl, List.filterMap_append,
      commentsOfNodes_eq_filterMap_parts body, commentsOfBody_eq_filterMap_parts otherwise]
  | .block _ _ body => by
    rw [Node.comments, Node.parts, List.filterMap_cons_none rfl,
      commentsOfNodes_eq_filterMap_parts body]
  | .comment _ _ _ => rfl

theorem commentsOfNodes_eq_filterMap_parts :
    (nodes : List Node) → commentsOfNodes nodes = (partsOfNodes nodes).filterMap Node.comment?
  | [] => rfl
  | node :: nodes => by
    rw [commentsOfNodes, partsOfNodes, List.filterMap_append, node.comments_eq_filterMap_parts,
      commentsOfNodes_eq_filterMap_parts nodes]

theorem commentsOfBranches_eq_filterMap_parts :
    (branches : List Branch) →
      commentsOfBranches branches = (partsOfBranches branches).filterMap Node.comment?
  | [] => rfl
  | .mk _ body :: branches => by
    rw [commentsOfBranches, partsOfBranches, List.filterMap_append,
      commentsOfNodes_eq_filterMap_parts body, commentsOfBranches_eq_filterMap_parts branches]

theorem commentsOfBody_eq_filterMap_parts :
    (otherwise : Option (List Node)) →
      commentsOfBody otherwise = (partsOfBody otherwise).filterMap Node.comment?
  | none => rfl
  | some body => commentsOfNodes_eq_filterMap_parts body

end

namespace Node

variable {node child after : Node} {body : OpenBody}

inductive Refuses : Node → ChildFault → Prop
  | text (line : Nat) (text : String) : Refuses (.text line text) .ofText
  | print (line : Nat) (expr : Expr) : Refuses (.print line expr) .ofPrint
  | comment (line : Nat) (text : String) (exposed : Bool) :
      Refuses (.comment line text exposed) .ofComment
  | choice (line : Nat) : Refuses (.choice line [] none) .withoutBranch

theorem openBody_eq_error {fault : ChildFault} :
    node.openBody = .error fault ↔ node.Refuses fault := by
  constructor
  · intro h
    cases node with
    | text line content =>
      obtain rfl := Except.error.inj h
      exact .text line content
    | print line expr =>
      obtain rfl := Except.error.inj h
      exact .print line expr
    | comment line content exposed =>
      obtain rfl := Except.error.inj h
      exact .comment line content exposed
    | block => cases h
    | loop _ _ _ _ _ otherwise => cases otherwise <;> cases h
    | choice line branches otherwise =>
      cases otherwise with
      | some otherwise => cases h
      | none =>
        rw [openBody] at h
        split at h
        · cases h
        · next hlast =>
          obtain rfl := List.getLast?_eq_none_iff.1 hlast
          obtain rfl := Except.error.inj h
          exact .choice line
  · rintro (_ | _ | _ | _) <;> rfl

structure OpensLast (node : Node) (body : OpenBody) (front : List (List Node)) : Prop where
  bodies : node.bodies = front ++ [body.nodes]
  close_bodies (nodes : List Node) : (body.close nodes).bodies = front ++ [nodes]
  close_frame (nodes : List Node) : (body.close nodes).frame = node.frame

theorem exists_opensLast (h : node.openBody = .ok body) : ∃ front, node.OpensLast body front := by
  cases node with
  | text | print | comment => cases h
  | block line name nodes =>
    obtain rfl := Except.ok.inj h
    exact ⟨[], rfl, fun _ => rfl, fun _ => rfl⟩
  | loop line key target iterable nodes otherwise =>
    cases otherwise with
    | some otherwise =>
      obtain rfl := Except.ok.inj h
      exact ⟨[nodes], rfl, fun _ => rfl, fun _ => rfl⟩
    | none =>
      obtain rfl := Except.ok.inj h
      exact ⟨[], rfl, fun _ => rfl, fun _ => rfl⟩
  | choice line branches otherwise =>
    cases otherwise with
    | some otherwise =>
      obtain rfl := Except.ok.inj h
      exact ⟨branches.map Branch.body, rfl, fun _ => rfl, fun _ => rfl⟩
    | none =>
      rw [openBody] at h
      split at h
      · next last hlast =>
        obtain ⟨front, rfl⟩ := List.getLast?_eq_some_iff.1 hlast
        obtain rfl := Except.ok.inj h
        refine ⟨front.map Branch.body, ?_, fun nodes => ?_, fun nodes => ?_⟩
        · simp [bodies]
        · simp [bodies, Branch.body]
        · simp [frame, Branch.condition]
      · cases h

theorem run_get_bind {α σ ε : Type} (f : σ → EStateM ε σ α) (s : σ) : (get >>= f) s = f s s :=
  rfl

theorem push_of_ok (h : node.openBody = .ok body) (child : Node) :
    push child node = .ok () (body.close (body.nodes ++ [child])) := by
  rw [push, run_get_bind, h]
  rfl

theorem push_of_error {fault : ChildFault} (h : node.openBody = .error fault) (child : Node) :
    push child node = .error (.invalid fault.message) node := by
  rw [push, run_get_bind, h]
  rfl

/-- A node with one more child: it stands at the end of the last body and so behind everything else
in the traversal. -/
structure Grown (node child after : Node) : Prop where
  frame : after.frame = node.frame
  bodies : ∃ front body, node.bodies = front ++ [body] ∧ after.bodies = front ++ [body ++ [child]]
  parts : ∃ below, node.parts = node :: below ∧ after.parts = after :: (below ++ child.parts)

theorem OpensLast.grown {front : List (List Node)} (h : node.OpensLast body front) (child : Node) :
    Grown node child (body.close (body.nodes ++ [child])) where
  frame := h.close_frame _
  bodies := ⟨front, body.nodes, h.bodies, h.close_bodies _⟩
  parts := by
    refine ⟨_, node.parts_eq_cons, ?_⟩
    rw [parts_eq_cons, h.bodies, h.close_bodies]
    simp [partsOfNodes_eq_flatMap]

theorem push_eq_ok (h : push child node = .ok () after) : Grown node child after := by
  cases hbody : node.openBody with
  | error fault =>
    rw [push_of_error hbody] at h
    cases h
  | ok body =>
    rw [push_of_ok hbody] at h
    obtain rfl := (EStateM.Result.ok.inj h).2
    obtain ⟨front, hopens⟩ := exists_opensLast hbody
    exact hopens.grown child

theorem push_eq_error {e : ParseError} {same : Node} :
    push child node = .error e same ↔
      same = node ∧ ∃ fault, node.Refuses fault ∧ e = .invalid fault.message := by
  cases hbody : node.openBody with
  | error fault =>
    rw [push_of_error hbody]
    constructor
    · intro h
      obtain ⟨rfl, rfl⟩ := EStateM.Result.error.inj h
      exact ⟨rfl, fault, openBody_eq_error.1 hbody, rfl⟩
    · rintro ⟨rfl, fault', hrefuses, rfl⟩
      rw [openBody_eq_error.2 hrefuses] at hbody
      rw [Except.error.inj hbody]
  | ok body =>
    rw [push_of_ok hbody]
    constructor
    · intro h
      cases h
    · rintro ⟨-, fault, hrefuses, -⟩
      rw [openBody_eq_error.2 hrefuses] at hbody
      cases hbody

theorem mapLast_concat {α : Type} (f : α → α) (front : List α) (last : α) :
    mapLast f (front ++ [last]) = front ++ [f last] := by
  induction front with
  | nil => rfl
  | cons a front ih =>
    cases front with
    | nil => rfl
    | cons b front => exact congrArg (a :: ·) ih

theorem pushChild_eq_map (node child : Node) :
    node.pushChild child = node.openBody.map fun body => body.close (body.nodes ++ [child]) := by
  cases node with
  | text | print | comment | block => rfl
  | loop _ _ _ _ _ otherwise => cases otherwise <;> rfl
  | choice line branches otherwise =>
    cases otherwise with
    | some otherwise => rfl
    | none =>
      rcases List.eq_nil_or_concat branches with rfl | ⟨front, last, rfl⟩
      · rfl
      · have hpure : pushChild (.choice line (front ++ [last]) none) child =
            .ok (.choice line (mapLast (Branch.append child) (front ++ [last])) none) := by
          cases front <;> rfl
        have hlast : openBody (.choice line (front ++ [last]) none) =
            .ok ⟨last.body, fun nodes =>
              .choice line (front ++ [.mk last.condition nodes]) none⟩ := by
          simp [openBody]
        rw [List.concat_eq_append, hpure, mapLast_concat, hlast]
        cases last
        rfl

/-- A node grows in place to the one that `pushChild` gives. -/
theorem push_eq_ok_iff : push child node = .ok () after ↔ node.pushChild child = .ok after := by
  rw [pushChild_eq_map]
  cases hbody : node.openBody with
  | ok body =>
    rw [push_of_ok hbody]
    simp [Except.map]
  | error fault =>
    rw [push_of_error hbody]
    simp [Except.map]

theorem pushChild_eq_error {fault : ChildFault} :
    node.pushChild child = .error fault ↔ node.Refuses fault := by
  rw [pushChild_eq_map, ← openBody_eq_error]
  cases node.openBody <;> simp [Except.map]

theorem comment?_eq_none (h : node.bodies ≠ []) : node.comment? = none := by
  cases node with
  | comment => exact absurd rfl h
  | _ => rfl

theorem Grown.bodies_ne_nil (h : Grown node child after) :
    node.bodies ≠ [] ∧ after.bodies ≠ [] := by
  obtain ⟨front, body, hnode, hafter⟩ := h.bodies
  rw [hnode, hafter]
  simp

theorem Grown.comments (h : Grown node child after) :
    after.comments = node.comments ++ child.comments := by
  obtain ⟨below, hnode, hafter⟩ := h.parts
  simp only [comments_eq_filterMap_parts]
  rw [hnode, hafter, List.filterMap_cons_none (comment?_eq_none h.bodies_ne_nil.1),
    List.filterMap_cons_none (comment?_eq_none h.bodies_ne_nil.2), List.filterMap_append]

theorem bodies_eq_nil_of_refuses {fault : ChildFault} (h : node.Refuses fault) :
    node.bodies = [] := by
  cases h <;> rfl

theorem pushEach_of_refuses {fault : ChildFault} (h : node.Refuses fault) (children : List Node) :
    pushEach children node = ([], node) := by
  induction children with
  | nil => rfl
  | cons child children ih => rw [pushEach, push_of_error (openBody_eq_error.2 h)]; exact ih

/-- A node that takes one child takes the next one too. -/
theorem pushEach_spec (h : ∀ fault, ¬ node.Refuses fault) (children : List Node) :
    (pushEach children node).1 = children ∧
      (pushEach children node).2.comments =
        node.comments ++ children.flatMap Node.comments := by
  induction children generalizing node with
  | nil => simp [pushEach]
  | cons child children ih =>
    cases hpush : push child node with
    | error e same =>
      obtain ⟨-, fault, hrefuses, -⟩ := push_eq_error.1 hpush
      exact absurd hrefuses (h fault)
    | ok _ after =>
      have hgrown := push_eq_ok hpush
      have hafter : ∀ fault, ¬ after.Refuses fault := fun fault hrefuses =>
        hgrown.bodies_ne_nil.2 (bodies_eq_nil_of_refuses hrefuses)
      obtain ⟨htaken, hcomments⟩ := ih hafter
      rw [pushEach, hpush]
      refine ⟨congrArg (child :: ·) htaken, ?_⟩
      rw [hcomments, hgrown.comments, List.flatMap_cons, List.append_assoc]

/-- Adding a child either puts it behind everything else in the node or, for exactly the nodes that
take no child, leaves the node as it is; in place and on a copy it comes to the same. So the
comments of a node to which children were added are its own and then those of the children that it
took, in order. -/
theorem push_appends_or_keeps (node child : Node) (children : List Node) :
    (∀ after, push child node = .ok () after ↔ node.pushChild child = .ok after) ∧
    (∀ fault, node.pushChild child = .error fault ↔ node.Refuses fault) ∧
    (∀ after, push child node = .ok () after → Grown node child after) ∧
    (∀ e after, push child node = .error e after ↔
      after = node ∧ ∃ fault, node.Refuses fault ∧ e = .invalid fault.message) ∧
    ∃ taken last, pushEach children node = (taken, last) ∧
      (taken = children ∨ taken = [] ∧ last = node) ∧
      last.comments = node.comments ++ taken.flatMap Node.comments := by
  refine ⟨fun after => push_eq_ok_iff, fun fault => pushChild_eq_error,
    fun after h => push_eq_ok h, fun e after => push_eq_error, ?_⟩
  by_cases hrefuses : ∃ fault, node.Refuses fault
  · obtain ⟨fault, hrefuses⟩ := hrefuses
    exact ⟨[], node, pushEach_of_refuses hrefuses children, .inr ⟨rfl, rfl⟩, by simp⟩
  · obtain ⟨htaken, hcomments⟩ := pushEach_spec (not_exists.1 hrefuses) children
    refine ⟨_, _, rfl, .inl htaken, ?_⟩
    rw [htaken, hcomments]

/-- A choice without an else body takes a child into its last branch. -/
theorem push_appends_or_keeps_choice :
    ∃ node child after : Node,
      node = .choice 1 [.mk (.null 1) [.comment 2 "a" false], .mk (.null 3) []] none ∧
      push child node = .ok () after ∧ Grown node child after ∧
      after.comments = [⟨2, "a", false⟩, ⟨4, "b", true⟩] := by
  obtain ⟨-, -, hgrown, -, -⟩ := push_appends_or_keeps
    (.choice 1 [.mk (.null 1) [.comment 2 "a" false], .mk (.null 3) []] none)
    (.block 4 "c" [.comment 4 "b" true]) []
  exact ⟨_, _, _, rfl, rfl, hgrown _ rfl, rfl⟩

end Node

end TemplateEngine
