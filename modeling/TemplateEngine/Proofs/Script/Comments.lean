import TemplateEngine.Proofs.Agreement
import TemplateEngine.Proofs.Script.Writing

/-!
Comments in scripts. Main statement: writing a document with and without debugging fails alike or
gives two texts of which the first is the second with the exposed comments put in, each at the start
of a line and in the order in which they are written; without debugging, the text is that of the
document without its comments. A loop writes what it does without items first, so the order is not
always that of the document.
-/

namespace TemplateEngine

def Node.isComment : Node → Bool
  | .comment _ _ _ => true
  | _ => false

mutual

def Node.withoutComments : Node → Node
  | .text line text => .text line text
  | .print line expr => .print line expr
  | .choice line branches otherwise =>
    .choice line (branchesWithoutComments branches) (bodyWithoutComments otherwise)
  | .loop line key target iterable body otherwise =>
    .loop line key target iterable (nodesWithoutComments body) (bodyWithoutComments otherwise)
  | .block line name body => .block line name (nodesWithoutComments body)
  | .comment line text exposed => .comment line text exposed

def nodesWithoutComments : List Node → List Node
  | [] => []
  | node :: nodes =>
    if node.isComment then nodesWithoutComments nodes
    else node.withoutComments :: nodesWithoutComments nodes

def branchesWithoutComments : List Branch → List Branch
  | [] => []
  | .mk condition body :: branches =>
    .mk condition (nodesWithoutComments body) :: branchesWithoutComments branches

def bodyWithoutComments : Option (List Node) → Option (List Node)
  | none => none
  | some body => some (nodesWithoutComments body)

end

def Document.withoutComments (document : Document) : Document :=
  { document with nodes := nodesWithoutComments document.nodes }

mutual

/-- The comments in a node as they are written: in document order, but in a loop those of the last
body first. -/
def Node.writtenComments : Node → List Comment
  | .text _ _ => []
  | .print _ _ => []
  | .choice _ branches otherwise =>
    writtenCommentsOfBranches branches ++ writtenCommentsOfBody otherwise
  | .loop _ _ _ _ body otherwise =>
    writtenCommentsOfBody otherwise ++ writtenCommentsOfNodes body
  | .block _ _ body => writtenCommentsOfNodes body
  | .comment line text exposed => [⟨line, text, exposed⟩]

def writtenCommentsOfNodes : List Node → List Comment
  | [] => []
  | node :: nodes => node.writtenComments ++ writtenCommentsOfNodes nodes

def writtenCommentsOfBranches : List Branch → List Comment
  | [] => []
  | .mk _ body :: branches => writtenCommentsOfNodes body ++ writtenCommentsOfBranches branches

def writtenCommentsOfBody : Option (List Node) → List Comment
  | none => []
  | some body => writtenCommentsOfNodes body

end

/-- The comments in a document as they are written. -/
def Document.writtenComments (document : Document) : List Comment :=
  writtenCommentsOfNodes document.nodes

mutual

theorem Node.writtenComments_perm :
    (node : Node) → node.writtenComments.Perm node.comments
  | .text _ _ => .refl _
  | .print _ _ => .refl _
  | .choice _ branches otherwise => by
    rw [Node.writtenComments, Node.comments]
    exact (writtenCommentsOfBranches_perm branches).append (writtenCommentsOfBody_perm otherwise)
  | .loop _ _ _ _ body otherwise => by
    rw [Node.writtenComments, Node.comments]
    exact List.perm_append_comm.trans
      ((writtenCommentsOfNodes_perm body).append (writtenCommentsOfBody_perm otherwise))
  | .block _ _ body => by
    rw [Node.writtenComments, Node.comments]
    exact writtenCommentsOfNodes_perm body
  | .comment _ _ _ => .refl _

theorem writtenCommentsOfNodes_perm :
    (nodes : List Node) → (writtenCommentsOfNodes nodes).Perm (commentsOfNodes nodes)
  | [] => .refl _
  | node :: nodes => by
    rw [writtenCommentsOfNodes, commentsOfNodes]
    exact node.writtenComments_perm.append (writtenCommentsOfNodes_perm nodes)

theorem writtenCommentsOfBranches_perm :
    (branches : List Branch) →
      (writtenCommentsOfBranches branches).Perm (commentsOfBranches branches)
  | [] => .refl _
  | .mk _ body :: branches => by
    rw [writtenCommentsOfBranches, commentsOfBranches]
    exact (writtenCommentsOfNodes_perm body).append (writtenCommentsOfBranches_perm branches)

theorem writtenCommentsOfBody_perm :
    (otherwise : Option (List Node)) →
      (writtenCommentsOfBody otherwise).Perm (commentsOfBody otherwise)
  | none => .refl _
  | some body => by
    rw [writtenCommentsOfBody, commentsOfBody]
    exact writtenCommentsOfNodes_perm body

end

namespace Script

/-- The block comments for those of the comments that are exposed. -/
def commentTexts (comments : List Comment) : List String :=
  (comments.filter (·.exposed)).map fun comment => commentText comment.line comment.text

theorem commentTexts_append (comments more : List Comment) :
    commentTexts (comments ++ more) = commentTexts comments ++ commentTexts more := by
  simp [commentTexts]

mutual

theorem writeNode_withoutComments (debug autoescape : Bool) :
    (node : Node) → node.isComment = false →
      writeNode ⟨debug, autoescape⟩ node.withoutComments = writeNode ⟨false, autoescape⟩ node
  | .text _ _ => fun _ => by
    rw [Node.withoutComments, writeNode, writeNode]
  | .print _ _ => fun _ => by
    rw [Node.withoutComments, writeNode, writeNode]
  | .choice _ branches otherwise => fun _ => by
    simp only [Node.withoutComments, writeNode,
      writeBranches_withoutComments debug autoescape branches,
      writeOtherwise_withoutComments debug autoescape otherwise]
  | .loop _ _ _ _ body otherwise => fun _ => by
    simp only [Node.withoutComments, writeNode, writeNodes_withoutComments debug autoescape body,
      writeEmptyCase_withoutComments debug autoescape otherwise]
  | .block _ _ body => fun _ => by
    simp only [Node.withoutComments, writeNode, writeNodes_withoutComments debug autoescape body]
  | .comment _ _ _ => fun h => by simp [Node.isComment] at h

theorem writeNodes_withoutComments (debug autoescape : Bool) :
    (nodes : List Node) → writeNodes ⟨debug, autoescape⟩ (nodesWithoutComments nodes) =
      writeNodes ⟨false, autoescape⟩ nodes
  | [] => by
    rw [nodesWithoutComments, writeNodes, writeNodes]
  | node :: nodes => by
    have hrest := writeNodes_withoutComments debug autoescape nodes
    by_cases hcomment : node.isComment = true
    · have hnothing : writeNode ⟨false, autoescape⟩ node = pure () := by
        cases node <;> simp_all [Node.isComment, writeNode]
      rw [nodesWithoutComments, if_pos hcomment, hrest, writeNodes, hnothing, pure_bind]
    · rw [nodesWithoutComments, if_neg hcomment, writeNodes, writeNodes, hrest,
        writeNode_withoutComments debug autoescape node (by simpa using hcomment)]

theorem writeBranches_withoutComments (debug autoescape : Bool) :
    (branches : List Branch) → ∀ isFirst,
      writeBranches ⟨debug, autoescape⟩ isFirst (branchesWithoutComments branches) =
        writeBranches ⟨false, autoescape⟩ isFirst branches
  | [] => fun _ => by
    rw [branchesWithoutComments, writeBranches, writeBranches]
  | .mk _ body :: branches => fun isFirst => by
    simp only [branchesWithoutComments, writeBranches,
      writeNodes_withoutComments debug autoescape body,
      writeBranches_withoutComments debug autoescape branches]

theorem writeOtherwise_withoutComments (debug autoescape : Bool) :
    (otherwise : Option (List Node)) →
      writeOtherwise ⟨debug, autoescape⟩ (bodyWithoutComments otherwise) =
        writeOtherwise ⟨false, autoescape⟩ otherwise
  | none => by
    rw [bodyWithoutComments, writeOtherwise, writeOtherwise]
  | some body => by
    simp only [bodyWithoutComments, writeOtherwise,
      writeNodes_withoutComments debug autoescape body]

theorem writeEmptyCase_withoutComments (debug autoescape : Bool) :
    (otherwise : Option (List Node)) → ∀ items,
      writeEmptyCase ⟨debug, autoescape⟩ items (bodyWithoutComments otherwise) =
        writeEmptyCase ⟨false, autoescape⟩ items otherwise
  | none => fun _ => by
    rw [bodyWithoutComments, writeEmptyCase, writeEmptyCase]
  | some body => fun items => by
    simp only [bodyWithoutComments, writeEmptyCase,
      writeNodes_withoutComments debug autoescape body]

end

/-- Without its comments a document is written, with or without debugging, as it is written without
debugging. -/
theorem ofDocument_withoutComments (debug autoescape : Bool) (document : Document) :
    ofDocument ⟨debug, autoescape⟩ document.withoutComments =
      ofDocument ⟨false, autoescape⟩ document := by
  unfold ofDocument writeModule
  simp only [Document.withoutComments, writeNodes_withoutComments]

/-- A text behind which a line begins: it is empty or has a line feed at its end. -/
def EndsLine (text : String) : Prop :=
  ∀ c ∈ text.toList.getLast?, c = '\n'

theorem getLast?_append_feed {front back : String} (h : back.toList.getLast? = some '\n') :
    (front ++ back).toList.getLast? = some '\n' := by
  rw [String.toList_append, List.getLast?_append, h]
  rfl

theorem endsLine_of_getLast? {text : String} (h : text.toList.getLast? = some '\n') :
    EndsLine text := by
  simp [EndsLine, h]

/-- The second text is the first one with the blocks put in, in order and each at the start of a
line. -/
inductive Inserted : List String → String → String → Prop
  | start : Inserted [] "" ""
  | text {blocks : List String} {plain commented : String} (h : Inserted blocks plain commented)
      (more : String) : Inserted blocks (plain ++ more) (commented ++ more)
  | block {blocks : List String} {plain commented : String} (h : Inserted blocks plain commented)
      (hline : EndsLine plain) (block : String) :
      Inserted (blocks ++ [block]) plain (commented ++ block)

namespace Inserted

variable {blocks : List String} {plain commented : String}

theorem eq_of_nil (h : Inserted blocks plain commented) (hnone : blocks = []) :
    commented = plain := by
  induction h with
  | start => rfl
  | text _ more ih => rw [ih hnone]
  | block => simp at hnone

/-- The characters of a kind that the first text does not have stand in the second one as in the
blocks. -/
theorem filter_eq (h : Inserted blocks plain commented) {p : Char → Bool}
    (hplain : ∀ c ∈ plain.toList, p c = false) :
    commented.toList.filter p = blocks.flatMap fun block => block.toList.filter p := by
  induction h with
  | start => rfl
  | text _ more ih =>
    rw [String.toList_append] at hplain
    obtain ⟨hfront, hmore⟩ := List.forall_mem_append.1 hplain
    have hnone : more.toList.filter p = [] := by simpa using hmore
    rw [String.toList_append, List.filter_append, ih hfront, hnone, List.append_nil]
  | block _ _ block ih =>
    rw [String.toList_append, List.filter_append, ih hplain]
    simp

end Inserted

structure SideBySide (blocks : List String) (plain commented : Script) : Prop where
  indentation : plain.indentation = commented.indentation
  scope : plain.scope = commented.scope
  line : EndsLine plain.text
  inserted : Inserted blocks plain.text commented.text

/-- Two writers that from scripts side by side fail alike, or come to equal results and scripts side
by side, with more blocks put in. -/
def WriteAlike {α : Type} (more : List String) (plain commented : Writer α) : Prop :=
  ∀ blocks s t, SideBySide blocks s t →
    Agree (fun a b => a.1 = b.1 ∧ SideBySide (blocks ++ more) a.2 b.2)
      (outcome plain s) (outcome commented t)

namespace WriteAlike

variable {α β : Type} {more behind : List String}

theorem bind {plain commented : Writer α} {f g : α → Writer β} (h : WriteAlike more plain commented)
    (hfg : ∀ a, WriteAlike behind (f a) (g a)) :
    WriteAlike (more ++ behind) (plain >>= f) (commented >>= g) := by
  intro blocks s t hst
  rw [outcome_bind, outcome_bind]
  apply (h blocks s t hst).bind
  rintro ⟨a, s'⟩ ⟨b, t'⟩ ⟨rfl, hst'⟩
  rw [← List.append_assoc]
  exact hfg a _ s' t' hst'

/-- What is done first puts nothing in. -/
theorem after {plain commented : Writer α} {f g : α → Writer β} (h : WriteAlike [] plain commented)
    (hfg : ∀ a, WriteAlike more (f a) (g a)) :
    WriteAlike more (plain >>= f) (commented >>= g) :=
  h.bind hfg

/-- What follows puts nothing in. -/
theorem before {plain commented : Writer α} {f g : α → Writer β}
    (h : WriteAlike more plain commented) (hfg : ∀ a, WriteAlike [] (f a) (g a)) :
    WriteAlike more (plain >>= f) (commented >>= g) := by
  have := h.bind hfg
  rwa [List.append_nil] at this

theorem pure (a : α) : WriteAlike [] (Pure.pure a) (Pure.pure a) := by
  intro blocks s t hst
  exact .ok ⟨rfl, by rwa [List.append_nil]⟩

/-- A change of the margin or the scope. -/
theorem modify {change : Script → Script}
    (h : ∀ blocks s t, SideBySide blocks s t → SideBySide blocks (change s) (change t)) :
    WriteAlike [] (modify change) (modify change) := by
  intro blocks s t hst
  exact .ok ⟨rfl, by rw [List.append_nil]; exact h blocks s t hst⟩

theorem indent : WriteAlike [] Script.indent Script.indent :=
  modify fun _ _ _ h => ⟨congrArg (· + 1) h.indentation, h.scope, h.line, h.inserted⟩

theorem outdent : WriteAlike [] Script.outdent Script.outdent :=
  modify fun _ _ _ h => ⟨congrArg (· - 1) h.indentation, h.scope, h.line, h.inserted⟩

theorem enterScope : WriteAlike [] Script.enterScope Script.enterScope :=
  modify fun _ _ _ h => ⟨h.indentation, congrArg (· + 1) h.scope, h.line, h.inserted⟩

theorem leaveScope : WriteAlike [] Script.leaveScope Script.leaveScope :=
  modify fun _ _ _ h => ⟨h.indentation, congrArg (· - 1) h.scope, h.line, h.inserted⟩

/-- A whole line. -/
theorem write {line : String} (h : line.toList.getLast? = some '\n') :
    WriteAlike [] (Script.write line) (Script.write line) := by
  intro blocks s t hst
  refine .ok ⟨rfl, ?_⟩
  rw [List.append_nil]
  refine ⟨hst.indentation, hst.scope, endsLine_of_getLast? (getLast?_append_feed h), ?_⟩
  rw [← hst.indentation]
  exact (hst.inserted.text _).text _

/-- What follows may look at the scope. -/
theorem get_bind {f g : Script → Writer α}
    (h : ∀ s t, s.scope = t.scope → WriteAlike more (f s) (g t)) :
    WriteAlike more (get >>= f) (get >>= g) := by
  intro blocks s t hst
  exact h s t hst.scope blocks s t hst

theorem raw {text : String} (h : text.toList.getLast? = some '\n') :
    WriteAlike [] (Script.raw text) (Script.raw text) := by
  intro blocks s t hst
  refine .ok ⟨rfl, ?_⟩
  rw [List.append_nil]
  exact ⟨hst.indentation, hst.scope, endsLine_of_getLast? (getLast?_append_feed h),
    hst.inserted.text _⟩

/-- Two texts of which only the second one has to end a line. -/
theorem raw_raw {first second : String} (h : second.toList.getLast? = some '\n')
    {f g : Unit → Writer α} (hfg : ∀ a, WriteAlike more (f a) (g a)) :
    WriteAlike more (Script.raw first >>= fun _ => Script.raw second >>= f)
      (Script.raw first >>= fun _ => Script.raw second >>= g) := by
  intro blocks s t hst
  exact hfg () blocks _ _ ⟨hst.indentation, hst.scope,
    endsLine_of_getLast? (getLast?_append_feed h), (hst.inserted.text _).text _⟩

theorem expr (e : Expr) : WriteAlike [] (Script.expr e) (Script.expr e) := by
  unfold Script.expr
  apply get_bind
  intro s t hscope
  rw [hscope]
  cases ofExpr t.scope e with
  | error fault => exact fun _ _ _ _ => .error fault
  | ok script => exact .pure script

/-- A comment is written with debugging only. -/
theorem comment (text : String) : WriteAlike [text] (Pure.pure ()) (Script.raw text) := by
  intro blocks s t hst
  exact .ok ⟨rfl, hst.indentation, hst.scope, hst.line, hst.inserted.block hst.line text⟩

end WriteAlike

section

variable (autoescape : Bool)

mutual

theorem writeNode_alike :
    (node : Node) → WriteAlike (commentTexts node.writtenComments)
      (writeNode ⟨false, autoescape⟩ node) (writeNode ⟨true, autoescape⟩ node)
  | .text _ _ => by
    rw [writeNode, writeNode]
    exact .write (getLast?_append_feed (by decide))
  | .print _ e => by
    rw [writeNode, writeNode]
    exact (WriteAlike.expr e).after fun _ => .write (getLast?_append_feed (by decide))
  | .choice _ branches otherwise => by
    rw [writeNode, writeNode, Node.writtenComments, commentTexts_append]
    apply (writeBranches_alike true branches).bind
    intro _
    apply (writeOtherwise_alike otherwise).before
    intro _
    exact WriteAlike.outdent.after fun _ => .write (by decide)
  | .loop _ key target iterable body otherwise => by
    rw [writeNode, writeNode, Node.writtenComments, commentTexts_append]
    apply (WriteAlike.expr iterable).after
    intro iterable
    apply WriteAlike.get_bind
    intro s t hscope
    rw [hscope]
    apply (WriteAlike.write (by decide)).after
    intro _
    apply WriteAlike.indent.after
    intro _
    apply (WriteAlike.write (getLast?_append_feed (by decide))).after
    intro _
    apply (writeEmptyCase_alike _ otherwise).bind
    intro _
    apply WriteAlike.enterScope.after
    intro _
    apply (WriteAlike.write (getLast?_append_feed (by decide))).after
    intro _
    apply WriteAlike.indent.after
    intro _
    apply (WriteAlike.write (getLast?_append_feed (by decide))).after
    intro _
    apply (writeNodes_alike body).before
    intro _
    apply WriteAlike.leaveScope.after
    intro _
    apply WriteAlike.outdent.after
    intro _
    apply (WriteAlike.write (by decide)).after
    intro _
    exact WriteAlike.outdent.after fun _ => .write (by decide)
  | .block _ name body => by
    rw [writeNode, writeNode, Node.writtenComments]
    apply (WriteAlike.write (getLast?_append_feed (by decide))).after
    intro _
    exact (writeNodes_alike body).before fun _ => .write (getLast?_append_feed (by decide))
  | .comment line text exposed => by
    rw [writeNode, writeNode]
    cases exposed with
    | true => exact .comment (commentText line text)
    | false => exact .pure ()

theorem writeNodes_alike :
    (nodes : List Node) → WriteAlike (commentTexts (writtenCommentsOfNodes nodes))
      (writeNodes ⟨false, autoescape⟩ nodes) (writeNodes ⟨true, autoescape⟩ nodes)
  | [] => by
    rw [writeNodes, writeNodes]
    exact .pure ()
  | node :: nodes => by
    rw [writeNodes, writeNodes, writtenCommentsOfNodes, commentTexts_append]
    exact (writeNode_alike node).bind fun _ => writeNodes_alike nodes

theorem writeBranches_alike (isFirst : Bool) :
    (branches : List Branch) → WriteAlike (commentTexts (writtenCommentsOfBranches branches))
      (writeBranches ⟨false, autoescape⟩ isFirst branches)
      (writeBranches ⟨true, autoescape⟩ isFirst branches)
  | [] => by
    rw [writeBranches, writeBranches]
    exact .pure ()
  | .mk condition body :: branches => by
    have hbody : WriteAlike
        (commentTexts (writtenCommentsOfBranches (.mk condition body :: branches)))
        (do
          indent
          writeNodes ⟨false, autoescape⟩ body
          writeBranches ⟨false, autoescape⟩ false branches)
        (do
          indent
          writeNodes ⟨true, autoescape⟩ body
          writeBranches ⟨true, autoescape⟩ false branches) := by
      rw [writtenCommentsOfBranches, commentTexts_append]
      exact WriteAlike.indent.after fun _ =>
        (writeNodes_alike body).bind fun _ => writeBranches_alike false branches
    rw [writeBranches, writeBranches]
    apply (WriteAlike.expr condition).after
    intro condition
    cases isFirst with
    | true => exact (WriteAlike.write (getLast?_append_feed (by decide))).after fun _ => hbody
    | false =>
      apply WriteAlike.outdent.after
      intro _
      exact (WriteAlike.write (getLast?_append_feed (getLast?_append_feed (by decide)))).after
        fun _ => hbody

theorem writeOtherwise_alike :
    (otherwise : Option (List Node)) → WriteAlike (commentTexts (writtenCommentsOfBody otherwise))
      (writeOtherwise ⟨false, autoescape⟩ otherwise) (writeOtherwise ⟨true, autoescape⟩ otherwise)
  | none => by
    rw [writeOtherwise, writeOtherwise]
    exact .pure ()
  | some body => by
    rw [writeOtherwise, writeOtherwise]
    apply WriteAlike.outdent.after
    intro _
    apply (WriteAlike.write (by decide)).after
    intro _
    exact WriteAlike.indent.after fun _ => writeNodes_alike body

theorem writeEmptyCase_alike (items : String) :
    (otherwise : Option (List Node)) → WriteAlike (commentTexts (writtenCommentsOfBody otherwise))
      (writeEmptyCase ⟨false, autoescape⟩ items otherwise)
      (writeEmptyCase ⟨true, autoescape⟩ items otherwise)
  | none => by
    rw [writeEmptyCase, writeEmptyCase]
    exact .pure ()
  | some body => by
    rw [writeEmptyCase, writeEmptyCase]
    apply (WriteAlike.write (getLast?_append_feed (by decide))).after
    intro _
    apply WriteAlike.indent.after
    intro _
    apply (writeNodes_alike body).before
    intro _
    exact WriteAlike.outdent.after fun _ => .write (by decide)

end

theorem writeModule_alike (document : Document) :
    WriteAlike (commentTexts document.writtenComments) (writeModule ⟨false, autoescape⟩ document)
      (writeModule ⟨true, autoescape⟩ document) := by
  unfold writeModule
  apply WriteAlike.raw_raw (by decide)
  intro _
  apply (WriteAlike.raw (getLast?_append_feed (by decide))).after
  intro _
  apply (WriteAlike.write (by decide)).after
  intro _
  apply WriteAlike.indent.after
  intro _
  apply (WriteAlike.write (by decide)).after
  intro _
  apply (WriteAlike.write (by decide)).after
  intro _
  apply (writeNodes_alike autoescape document.nodes).before
  intro _
  apply (WriteAlike.write (by decide)).after
  intro _
  exact WriteAlike.outdent.after fun _ => .write (by decide)

end

/-- Debugging puts the exposed comments into the script, each at the start of a line, in the order
in which they are written. -/
theorem ofDocument_inserted (autoescape : Bool) (document : Document) :
    Agree (Inserted (commentTexts document.writtenComments))
      (ofDocument ⟨false, autoescape⟩ document) (ofDocument ⟨true, autoescape⟩ document) := by
  have hstart : SideBySide [] empty empty := ⟨rfl, rfl, by simp [EndsLine, empty], .start⟩
  have hmodule := writeModule_alike autoescape document [] empty empty hstart
  rw [ofDocument_eq_map, ofDocument_eq_map]
  exact hmodule.map fun _ _ h => h.2.inserted

theorem commentTexts_eq_nil {comments : List Comment} (h : ∀ c ∈ comments, c.exposed = false) :
    commentTexts comments = [] := by
  have hnone : comments.filter (·.exposed) = [] := by simpa using h
  rw [commentTexts, hnone, List.map_nil]

/-- With and without debugging a document fails to compile alike. Without debugging its script is
that of the document without comments; with debugging it has the block comments of the exposed
comments in addition, each at the start of a line, in document order but in a loop those of the last
body first. -/
theorem ofDocument_debug (autoescape : Bool) (document : Document) :
    (∀ debug, ofDocument ⟨debug, autoescape⟩ document.withoutComments =
      ofDocument ⟨false, autoescape⟩ document) ∧
    Agree (Inserted (commentTexts document.writtenComments))
      (ofDocument ⟨false, autoescape⟩ document) (ofDocument ⟨true, autoescape⟩ document) ∧
    document.writtenComments.Perm document.comments ∧
    ((∀ comment ∈ document.comments, comment.exposed = false) →
      ofDocument ⟨true, autoescape⟩ document = ofDocument ⟨false, autoescape⟩ document) := by
  have hinserted := ofDocument_inserted autoescape document
  have hperm : document.writtenComments.Perm document.comments :=
    writtenCommentsOfNodes_perm document.nodes
  refine ⟨fun debug => ofDocument_withoutComments debug autoescape document, hinserted, hperm,
    fun hhidden => ?_⟩
  have hnone : commentTexts document.writtenComments = [] :=
    commentTexts_eq_nil fun comment hcomment => hhidden comment (hperm.mem_iff.1 hcomment)
  generalize ofDocument ⟨false, autoescape⟩ document = plain at hinserted ⊢
  generalize ofDocument ⟨true, autoescape⟩ document = commented at hinserted ⊢
  cases hinserted with
  | error e => rfl
  | ok h => rw [h.eq_of_nil hnone]

/-- Whether a character is one of the two that tell the comments below apart. -/
def isMark (c : Char) : Bool :=
  c == 'X' || c == 'Y'

def Unmarked (text : String) : Prop :=
  ∀ c ∈ text.toList, isMark c = false

theorem unmarked_ofList {cs : List Char} (h : cs.any isMark = false) :
    Unmarked (String.ofList cs) := by
  simpa [Unmarked] using h

theorem unmarked_append {front back : String} :
    Unmarked (front ++ back) ↔ Unmarked front ∧ Unmarked back := by
  unfold Unmarked
  rw [String.toList_append, List.forall_mem_append]

theorem unmarked_intercalate {separator : String} (hseparator : Unmarked separator)
    {lines : List String} (h : ∀ line ∈ lines, Unmarked line) :
    Unmarked (separator.intercalate lines) := by
  induction lines with
  | nil => exact unmarked_ofList rfl
  | cons line lines ih =>
    obtain ⟨hline, hlines⟩ := List.forall_mem_cons.1 h
    cases lines with
    | nil => rwa [String.intercalate_singleton]
    | cons next lines =>
      rw [String.intercalate_cons_cons]
      exact unmarked_append.2 ⟨unmarked_append.2 ⟨hline, hseparator⟩, ih hlines⟩

theorem unmarked_support : Unmarked support := by
  apply unmarked_intercalate (unmarked_ofList (by decide))
  simp only [supportLines, List.forall_mem_cons]
  repeat apply And.intro (unmarked_ofList (by decide))
  exact List.forall_mem_nil _

theorem unmarked_module : Unmarked (moduleHead "template") ∧ Unmarked moduleEnd := by
  unfold moduleHead moduleEnd
  simp only [unmarked_append, unmarked_support, true_and]
  repeat' apply And.intro
  all_goals exact unmarked_ofList (by decide)

/-- A loop with a comment in its body and one in its last body, which is written first. -/
def twoComments : Document :=
  ⟨"template", [.loop 1 none "x" (.name 1 "xs") [.comment 1 "X" true] (some [.comment 1 "Y" true])]⟩

def bareLoop : String :=
  margin 1 ++ "\x7b\n" ++
    margin 2 ++ ("const " ++ itemsName 0 ++ " = " ++
      call "iterate" [call "attr" [scopeName 0, literal "xs"]] ++ ";\n") ++
    margin 2 ++ ("if (" ++ itemsName 0 ++ ".length === 0) \x7b\n") ++ margin 2 ++ "\x7d\n" ++
    margin 2 ++ ("for (const [i, [key, value]] of " ++ itemsName 0 ++ ".entries()) \x7b\n") ++
    margin 3 ++ scopeText 0 none "x" (itemsName 0) ++
    margin 2 ++ "\x7d\n" ++ margin 1 ++ "\x7d\n"

theorem outcome_twoComments (front : String) :
    outcome (writeNodes ⟨false, true⟩ twoComments.nodes) ⟨front, 1, 0⟩ =
      .ok ((), ⟨front ++ bareLoop, 1, 0⟩) := by
  have hsilent (text : String) : writeNodes ⟨false, true⟩ [.comment 1 text true] = pure () := rfl
  have hempty (items front : String) :
      outcome (writeEmptyCase ⟨false, true⟩ items (some [.comment 1 "Y" true])) ⟨front, 2, 0⟩ =
        .ok ((), ⟨front ++ margin 2 ++ ("if (" ++ items ++ ".length === 0) \x7b\n") ++ margin 2 ++
          "\x7d\n", 2, 0⟩) := by
    rw [writeEmptyCase, hsilent, outcome_bind_of_ok (outcome_write ..),
      outcome_bind_of_ok (outcome_indent ..), outcome_bind_of_ok (outcome_pure ..),
      outcome_bind_of_ok (outcome_outdent ..), outcome_write]
  have hname : ofExpr 0 (.name 1 "xs") = .ok (call "attr" [scopeName 0, literal "xs"]) := by
    rw [ofExpr]
  have hloop (line : Nat) : outcome (writeNode ⟨false, true⟩ (.loop line none "x" (.name 1 "xs")
      [.comment 1 "X" true] (some [.comment 1 "Y" true]))) ⟨front, 1, 0⟩ =
        .ok ((), ⟨front ++ bareLoop, 1, 0⟩) := by
    rw [writeNode, hsilent, outcome_bind_of_ok (outcome_expr _ _ _ hname),
      outcome_bind_of_ok (outcome_get _), outcome_bind_of_ok (outcome_write ..),
      outcome_bind_of_ok (outcome_indent ..), outcome_bind_of_ok (outcome_write ..),
      outcome_bind_of_ok (hempty ..), outcome_bind_of_ok (outcome_enterScope ..),
      outcome_bind_of_ok (outcome_write ..), outcome_bind_of_ok (outcome_indent ..),
      outcome_bind_of_ok (outcome_write ..), outcome_bind_of_ok (outcome_pure ..),
      outcome_bind_of_ok (outcome_leaveScope ..), outcome_bind_of_ok (outcome_outdent ..),
      outcome_bind_of_ok (outcome_write ..), outcome_bind_of_ok (outcome_outdent ..), outcome_write]
    unfold bareLoop itemsName
    simp only [String.append_assoc]
  rw [twoComments, writeNodes, outcome_bind_of_ok (hloop 1), writeNodes, outcome_pure]

theorem unmarked_bareLoop : Unmarked bareLoop := by
  unfold bareLoop scopeText call scopeName itemsName
  simp only [unmarked_append, String.intercalate_singleton, String.intercalate_cons_cons]
  repeat' apply And.intro
  all_goals exact unmarked_ofList (by decide)

/-- The comments of this loop are not put in in the order of the document: the one in the last body
comes first. -/
theorem not_inserted_in_document_order :
    ∃ plain commented, ofDocument ⟨false, true⟩ twoComments = .ok plain ∧
      ofDocument ⟨true, true⟩ twoComments = .ok commented ∧
      ¬ Inserted (commentTexts twoComments.comments) plain commented := by
  obtain ⟨plain, hplain, hunmarked⟩ :
      ∃ plain, ofDocument ⟨false, true⟩ twoComments = .ok plain ∧ Unmarked plain := by
    obtain ⟨hhead, hend⟩ := unmarked_module
    exact ⟨_, ofDocument_eq_of_outcome outcome_twoComments,
      unmarked_append.2 ⟨unmarked_append.2 ⟨hhead, unmarked_bareLoop⟩, hend⟩⟩
  have hinserted := ofDocument_inserted true twoComments
  rw [hplain] at hinserted
  cases hcommented : ofDocument ⟨true, true⟩ twoComments with
  | error e =>
    rw [hcommented] at hinserted
    cases hinserted
  | ok commented =>
    rw [hcommented] at hinserted
    cases hinserted with
    | ok hwritten =>
      refine ⟨plain, commented, hplain, rfl, fun hordered => ?_⟩
      have hsame := (hwritten.filter_eq hunmarked).symm.trans (hordered.filter_eq hunmarked)
      revert hsame
      decide +kernel

end Script

end TemplateEngine
