import TemplateEngine.Proofs.Document.Comments
import TemplateEngine.Proofs.Expr.Passing

/-!
Documents and the tokens they are read from. Main statement: the texts, print tags, comments and
blocks of a document, from its first node to its last, are those that a scan of the tokens finds
from left to right. Reading loses, repeats and rearranges none of them.
-/

namespace TemplateEngine

inductive Part where
  | text (line : Nat) (text : String)
  | print
  | comment (comment : Comment)
  | block (name : String)
  deriving Repr, DecidableEq

def Part.comment? : Part → Option Comment
  | comment c => some c
  | _ => none

mutual

/-- The parts of a node in document order: branches before the last body, a block before what is
inside of it. -/
def Node.outline : Node → List Part
  | .text line text => [.text line text]
  | .print _ _ => [.print]
  | .choice _ branches otherwise => outlineOfBranches branches ++ outlineOfBody otherwise
  | .loop _ _ _ _ body otherwise => outlineOfNodes body ++ outlineOfBody otherwise
  | .block _ name body => .block name :: outlineOfNodes body
  | .comment line text exposed => [.comment ⟨line, text, exposed⟩]

def outlineOfNodes : List Node → List Part
  | [] => []
  | node :: nodes => node.outline ++ outlineOfNodes nodes

def outlineOfBranches : List Branch → List Part
  | [] => []
  | .mk _ body :: branches => outlineOfNodes body ++ outlineOfBranches branches

def outlineOfBody : Option (List Node) → List Part
  | none => []
  | some body => outlineOfNodes body

end

/-- The parts of a document in document order. -/
def Document.outline (document : Document) : List Part :=
  outlineOfNodes document.nodes

mutual

theorem Node.comments_eq_filterMap_outline :
    (node : Node) → node.comments = node.outline.filterMap Part.comment?
  | .text _ _ | .print _ _ | .comment _ _ _ => by
    simp [Node.comments, Node.outline, Part.comment?]
  | .choice _ branches otherwise => by
    rw [Node.comments, Node.outline, List.filterMap_append, commentsOfBranches_eq branches,
      commentsOfBody_eq otherwise]
  | .loop _ _ _ _ body otherwise => by
    rw [Node.comments, Node.outline, List.filterMap_append, commentsOfNodes_eq body,
      commentsOfBody_eq otherwise]
  | .block _ name body => by
    have hblock : (Part.block name).comment? = none := rfl
    rw [Node.comments, Node.outline, List.filterMap_cons_none hblock, commentsOfNodes_eq body]

theorem commentsOfNodes_eq :
    (nodes : List Node) → commentsOfNodes nodes = (outlineOfNodes nodes).filterMap Part.comment?
  | [] => rfl
  | node :: nodes => by
    rw [commentsOfNodes, outlineOfNodes, List.filterMap_append,
      node.comments_eq_filterMap_outline, commentsOfNodes_eq nodes]

theorem commentsOfBranches_eq :
    (branches : List Branch) →
      commentsOfBranches branches = (outlineOfBranches branches).filterMap Part.comment?
  | [] => rfl
  | .mk _ body :: branches => by
    rw [commentsOfBranches, outlineOfBranches, List.filterMap_append, commentsOfNodes_eq body,
      commentsOfBranches_eq branches]

theorem commentsOfBody_eq :
    (otherwise : Option (List Node)) →
      commentsOfBody otherwise = (outlineOfBody otherwise).filterMap Part.comment?
  | none => rfl
  | some body => by
    rw [commentsOfBody, outlineOfBody, commentsOfNodes_eq body]

end

/-- The comments of a document are those among its parts. -/
theorem Document.comments_eq_filterMap_outline (document : Document) :
    document.comments = document.outline.filterMap Part.comment? :=
  commentsOfNodes_eq document.nodes

inductive Place where
  | apart
  | opened
  | comment
  | block
  | named
  deriving Repr, DecidableEq

namespace Place

def ofTag (name : String) : Place :=
  if name = Tag.comment.name then comment
  else if name = Tag.block.name then block
  else apart

def next : Place → Token → Place
  | opened, token => ofTag token.value
  | block, _ => named
  | _, token => if token.kind = .blockStart then opened else apart

/-- The part that a token adds. Behind the name of a block stands the end of its opening tag, or
else, in the short form, an expression to print. A comment that was written as a string is
exposed. -/
def part? : Place → Token → Option Part
  | apart, token =>
    match token.kind with
    | .text => some (.text token.line token.value)
    | .varStart => some .print
    | _ => none
  | opened, _ => none
  | comment, token => some (.comment ⟨token.line, token.value, token.kind == .string⟩)
  | block, token => if token.kind = .name then some (.block token.value) else none
  | named, token => if token.kind = .blockEnd then none else some .print

end Place

/-- The parts that a scan finds in tokens, up to the end of the template. -/
def outlineFrom : Place → List Token → List Part
  | _, [] => []
  | place, token :: tokens =>
    if token.kind = .eof then []
    else (place.part? token).toList ++ outlineFrom (place.next token) tokens

section

variable {token : Token} {tokens : List Token} {s t : TokenStream}

theorem outlineFrom_cons (place : Place) (htoken : token.kind ≠ .eof) :
    outlineFrom place (token :: tokens) =
      (place.part? token).toList ++ outlineFrom (place.next token) tokens := by
  rw [outlineFrom, if_neg htoken]

theorem Place.part?_eq_block {place : Place} {name : String}
    (h : place.part? token = some (.block name)) : token.kind = .name ∧ token.value = name := by
  cases place with
  | apart =>
    simp only [Place.part?] at h
    split at h <;> simp at h
  | opened => simp [Place.part?] at h
  | comment => simp [Place.part?] at h
  | block => simpa [Place.part?] using h
  | named =>
    simp only [Place.part?] at h
    split at h <;> simp at h

/-- The name of a block is that of a token. -/
theorem exists_name_of_mem_outlineFrom {place : Place} {name : String}
    (h : .block name ∈ outlineFrom place tokens) :
    ∃ t ∈ tokens, t.kind = .name ∧ t.value = name := by
  induction tokens generalizing place with
  | nil => simp [outlineFrom] at h
  | cons token tokens ih =>
    rw [outlineFrom] at h
    split at h
    · simp at h
    rcases List.mem_append.1 h with hpart | hrest
    · exact ⟨token, List.mem_cons_self, Place.part?_eq_block (by simpa using hpart)⟩
    · obtain ⟨t, ht, hname⟩ := ih hrest
      exact ⟨t, List.mem_cons_of_mem token ht, hname⟩

theorem kind_ne_of_isInner (htoken : token.kind.isInner = true) {kind : TokenKind}
    (hkind : kind.isInner = false) : token.kind ≠ kind := by
  rintro rfl
  rw [htoken] at hkind
  cases hkind

/-- A token inside a tag adds nothing. -/
theorem outlineFrom_inner (htoken : token.kind.isInner = true) :
    outlineFrom .apart (token :: tokens) = outlineFrom .apart tokens := by
  have hnone : Place.part? .apart token = none := by
    simp only [Place.part?]
    split
    · next hkind => exact absurd hkind (kind_ne_of_isInner htoken rfl)
    · next hkind => exact absurd hkind (kind_ne_of_isInner htoken rfl)
    · rfl
  have hapart : Place.next .apart token = .apart := if_neg (kind_ne_of_isInner htoken rfl)
  rw [outlineFrom_cons .apart (kind_ne_of_isInner htoken rfl), hnone, hapart]
  rfl

/-- Neither does a token that ends a tag. -/
theorem outlineFrom_endsTag (htoken : token.kind.EndsTag) :
    outlineFrom .apart (token :: tokens) = outlineFrom .apart tokens := by
  rcases htoken with hkind | hkind
  · rw [outlineFrom_cons .apart (by simp [hkind])]
    simp [Place.part?, Place.next, hkind]
  · rw [outlineFrom_cons .apart (by simp [hkind])]
    simp [Place.part?, Place.next, hkind]

theorem outlineFrom_text (htoken : token.kind = .text) :
    outlineFrom .apart (token :: tokens) =
      .text token.line token.value :: outlineFrom .apart tokens := by
  rw [outlineFrom_cons .apart (by simp [htoken])]
  simp [Place.part?, Place.next, htoken]

theorem outlineFrom_varStart (htoken : token.kind = .varStart) :
    outlineFrom .apart (token :: tokens) = .print :: outlineFrom .apart tokens := by
  rw [outlineFrom_cons .apart (by simp [htoken])]
  simp [Place.part?, Place.next, htoken]

/-- The name of a tag decides what is looked for behind it. -/
theorem outlineFrom_tag {name : Token} (htoken : token.kind = .blockStart)
    (hname : name.kind = .name) :
    outlineFrom .apart (token :: name :: tokens) =
      outlineFrom (Place.ofTag name.value) tokens := by
  rw [outlineFrom_cons .apart (by simp [htoken])]
  have hopened : Place.next .apart token = .opened := by simp [Place.next, htoken]
  have hnone : Place.part? .apart token = none := by simp [Place.part?, htoken]
  rw [hopened, hnone, outlineFrom_cons .opened (by simp [hname])]
  rfl

/-- What stands behind the name of a comment tag is the text of the comment. -/
theorem outlineFrom_comment {close : Token} (htoken : token.kind = .string ∨ token.kind = .text)
    (hclose : close.kind = .blockEnd) :
    outlineFrom .comment (token :: close :: tokens) =
      .comment ⟨token.line, token.value, token.kind == .string⟩ :: outlineFrom .apart tokens := by
  have heof : token.kind ≠ .eof := by
    rcases htoken with h | h <;> rw [h] <;> simp
  have hapart : Place.next .comment token = .apart := by
    rcases htoken with h | h <;> simp [Place.next, h]
  rw [outlineFrom_cons .comment heof, hapart, outlineFrom_endsTag (.inl hclose)]
  rfl

/-- Behind the name of a block its opening tag ends, or else something is printed. -/
theorem outlineFrom_block (htoken : token.kind = .name) :
    outlineFrom .block (token :: tokens) = .block token.value :: outlineFrom .named tokens := by
  rw [outlineFrom_cons .block (by simp [htoken])]
  simp [Place.part?, Place.next, htoken]

theorem outlineFrom_named_blockEnd (htoken : token.kind = .blockEnd) :
    outlineFrom .named (token :: tokens) = outlineFrom .apart tokens := by
  rw [outlineFrom_cons .named (by simp [htoken])]
  simp [Place.part?, Place.next, htoken]

theorem outlineFrom_named_inner (htoken : token.kind.isInner = true) :
    outlineFrom .named (token :: tokens) = .print :: outlineFrom .apart tokens := by
  have hprint : Place.part? .named token = some .print := if_neg (kind_ne_of_isInner htoken rfl)
  have hapart : Place.next .named token = .apart := if_neg (kind_ne_of_isInner htoken rfl)
  rw [outlineFrom_cons .named (kind_ne_of_isInner htoken rfl), hprint, hapart]
  rfl

theorem outlineFrom_append {passed : List Token} (h : ∀ x ∈ passed, x.kind.isInner = true) :
    outlineFrom .apart (passed ++ tokens) = outlineFrom .apart tokens := by
  induction passed with
  | nil => rfl
  | cons token passed ih =>
    rw [List.cons_append, outlineFrom_inner (h token List.mem_cons_self)]
    exact ih fun x hx => h x (List.mem_cons_of_mem _ hx)

theorem outlineFrom_of_passesTo (h : s.PassesTo t) :
    outlineFrom .apart s.ahead = outlineFrom .apart t.ahead := by
  obtain ⟨passed, hpassed, -, hahead⟩ := h
  rw [hahead, outlineFrom_append hpassed]

/-- The short form of a block: at least one token stands between its name and the end of the tag. -/
theorem outlineFrom_named_of_passesTo (h : s.PassesTo t) (hs : s.current.kind ≠ .blockEnd)
    (ht : t.current.kind = .blockEnd) :
    outlineFrom .named s.ahead = .print :: outlineFrom .apart t.ahead := by
  obtain ⟨passed, hpassed, -, hahead⟩ := h
  cases passed with
  | nil =>
    have hcurrent : s.current = t.current := (List.cons.inj hahead).1
    exact absurd ht (hcurrent ▸ hs)
  | cons token passed =>
    rw [hahead, List.cons_append, outlineFrom_named_inner (hpassed token List.mem_cons_self),
      outlineFrom_append fun x hx => hpassed x (List.mem_cons_of_mem _ hx)]

end

namespace Document

open TokenReader

variable {tags : TagSet} {k : Nat} {s : ParserState}

theorem ifRead_blockEnd (s : ParserState) :
    IfRead blockEnd s fun _ t =>
      ∃ token, token.kind = .blockEnd ∧ s.stream.ahead = token :: t.stream.ahead := by
  unfold blockEnd
  apply (gives_lift (gives_expect trivial trivial)).bind
  rintro token t ⟨htoken, htest⟩
  rw [Token.test_none, beq_iff_eq] at htest
  exact .pure ⟨token, htest, htoken.2⟩

theorem ifRead_blockEnd_apart (s : ParserState) :
    IfRead blockEnd s fun _ t =>
      outlineFrom .apart s.stream.ahead = outlineFrom .apart t.stream.ahead := by
  apply (ifRead_blockEnd s).mono
  rintro _ t ⟨token, htoken, hahead⟩
  rw [hahead, outlineFrom_endsTag (.inl htoken)]

theorem ifRead_lift {α : Type} {reader : TokenReader α} (h : StaysInside reader)
    (s : ParserState) : IfRead (lift reader) s fun _ t => s.stream.PassesTo t.stream :=
  (gives_lift (h s.stream)).ifRead

theorem ifRead_lastExpression (s : ParserState) :
    IfRead lastExpression s fun _ t =>
      outlineFrom .apart s.stream.ahead = outlineFrom .apart t.stream.ahead := by
  unfold lastExpression
  apply (ifRead_lift Expr.read_staysInside s).bind
  intro expr t hst
  apply (ifRead_blockEnd_apart t).bind
  intro _ u htu
  exact .pure ((outlineFrom_of_passesTo hst).trans htu)

theorem readLoopNames_staysInside : StaysInside readLoopNames := by
  unfold readLoopNames
  apply (StaysInside.expect rfl none).bind
  intro first
  have hin : ∀ names : Option String × String, StaysInside (do
      let _ ← expect .operator (some "in")
      return names) :=
    fun names => (StaysInside.expect rfl _).bind fun _ => .pure names
  apply (StaysInside.nextIf rfl _).bind
  rintro (_ | comma)
  · exact hin _
  · exact (StaysInside.expect rfl none).bind fun target => hin _

theorem readEndName_staysInside (name : String) : StaysInside (readEndName name) := by
  unfold readEndName
  apply (StaysInside.nextIf rfl none).bind
  rintro (_ | given)
  · exact .pure _
  · simp only
    split
    · exact .pure _
    · exact .fail rfl _

/-- A string stands for an exposed comment, a text for one that was lexed. -/
theorem ordinary_readComment (s : TokenStream) :
    Gives SyntaxError.IsOrdinary readComment s fun node t => ∃ token close,
      (token.kind = .string ∨ token.kind = .text) ∧ close.kind = .blockEnd ∧
        s.ahead = token :: close :: t.ahead ∧
        node = .comment token.line token.value (token.kind == .string) := by
  unfold readComment
  apply gives_current
  have hclose : ∀ (line : Nat) (exposed : Bool) (s : TokenStream),
      Gives SyntaxError.IsOrdinary
        (do
          let text ← expect .text none
          let _ ← expect .blockEnd none
          return Node.comment line text.value exposed) s
        fun node t => s.current.kind = .text ∧ node = .comment line s.current.value exposed ∧
          ∃ close, close.kind = .blockEnd ∧ s.after = close :: t.ahead := by
    intro line exposed s
    apply (ordinary_expect _ _ _).bind
    rintro text t ⟨⟨rfl, htext⟩, htest⟩
    apply (ordinary_expect _ _ _).bind
    rintro close u ⟨⟨-, hbehind⟩, hend⟩
    rw [Token.test_none, beq_iff_eq] at htest hend
    have hafter : s.after = t.ahead := (List.cons.inj htext).2
    exact .pure ⟨htest, rfl, close, hend, hafter.trans hbehind⟩
  by_cases hkind : s.current.kind = .string
  · simp only [hkind, beq_self_eq_true, if_true]
    apply Gives.modify_bind
    apply (ordinary_next _).bind
    rintro _ t ⟨-, hinjected⟩
    obtain ⟨hcurrent, hafter⟩ : t.current = ⟨.text, s.current.value, s.current.line⟩ ∧
        t.after = s.after := by
      obtain ⟨hcurrent, hafter⟩ := List.cons.inj (List.cons.inj hinjected).2
      exact ⟨hcurrent.symm, hafter.symm⟩
    apply (hclose s.current.line true t).mono
    rintro node u ⟨-, rfl, close, hend, hbehind⟩
    refine ⟨s.current, close, .inl hkind, hend, ?_, ?_⟩
    · rw [TokenStream.ahead, ← hafter, hbehind]
    · rw [hcurrent, hkind]
      rfl
  · have hexposed : (s.current.kind == .string) = false := beq_eq_false_iff_ne.2 hkind
    simp only [hexposed, Bool.false_eq_true, if_false]
    apply (hclose s.current.line false s).mono
    rintro node u ⟨htext, rfl, close, hend, hbehind⟩
    exact ⟨s.current, close, .inr htext, hend, by rw [TokenStream.ahead, hbehind], by rw [hexposed]⟩

theorem ifRead_readComment (s : TokenStream) :
    IfRead readComment s fun node t =>
      outlineFrom .comment s.ahead = node.outline ++ outlineFrom .apart t.ahead := by
  apply (ordinary_readComment s).ifRead.mono
  rintro node t ⟨token, close, htoken, hclose, hahead, rfl⟩
  rw [hahead, outlineFrom_comment htoken hclose]
  rfl

theorem ifRead_defineBlock (s : ParserState) (name : String) (line : Nat) :
    IfRead (defineBlock name line) s fun _ t => t.stream = s.stream := by
  unfold defineBlock
  apply Gives.get_bind
  split
  · exact gives_lift (ifRead_fail (Q := fun _ t => t = s.stream) s.stream _ _)
  · exact .ok rfl

theorem ifRead_lift_fail {α : Type} (s : ParserState) (fault : SyntaxFault) (line : Nat)
    {P : α → ParserState → Prop} : IfRead (lift (fail fault line)) s P :=
  .error trivial

theorem ifRead_lift_stop {α : Type} (s : ParserState) {P : α → ParserState → Prop} :
    IfRead (lift Expr.stop) s P :=
  .error trivial

theorem ifRead_lift_test {α : Type} {kind : TokenKind} {value? : Option String}
    {f : Bool → Reader α} {P : α → ParserState → Prop}
    (hf : IfRead (f (s.stream.current.test kind value?)) s P) :
    IfRead (lift (test kind value?) >>= f) s P :=
  hf

theorem ifRead_lift_next (s : ParserState) :
    IfRead (lift next) s fun token t => s.stream.Past token t.stream :=
  gives_lift (gives_next trivial)

theorem mem_of_find? {name : String} {tag : Tag} (h : tags.find? name = some tag) :
    tag ∈ tags.members ∧ tag.name = name := by
  have hname := List.find?_some h
  exact ⟨List.mem_of_find?_eq_some h, by simpa using hname⟩

/-- Nodes end at a tag with one of these names, or at the end of the template when there are
none. -/
def EndsAt (ends : List String) (s : TokenStream) : Prop :=
  ends = [] ∧ s.current.kind = .eof ∨ s.current.kind = .name ∧ s.current.value ∈ ends

theorem EndsAt.name {ends : List String} {s : TokenStream} (h : EndsAt ends s) (hends : ends ≠ []) :
    s.current.kind = .name ∧ s.current.value ∈ ends := by
  rcases h with ⟨hempty, -⟩ | h
  · exact absurd hempty hends
  · exact h

/-- The name of the tag that ends a body adds nothing. -/
theorem ifRead_lift_next_name {s : ParserState} (hname : s.stream.current.kind = .name) :
    IfRead (lift next) s fun token t =>
      token = s.stream.current ∧
        outlineFrom .apart s.stream.ahead = outlineFrom .apart t.stream.ahead := by
  apply (ifRead_lift_next s).mono
  rintro token t ⟨rfl, hahead⟩
  refine ⟨rfl, ?_⟩
  rw [hahead, outlineFrom_inner (by rw [hname]; rfl)]

structure AllKeepOrder (tags : TagSet) (k : Nat) : Prop where
  readNodes {ends : List String} (enclosing : Option String)
      (hends : ∀ name ∈ ends, Place.ofTag name = .apart) (s : ParserState) :
    IfRead (readNodes tags k ends enclosing) s fun nodes t =>
      outlineFrom .apart s.stream.ahead =
        outlineOfNodes nodes ++ outlineFrom .apart t.stream.ahead ∧ EndsAt ends t.stream
  readTag {tag : Tag} (htag : tag ≠ .here) (line : Nat) (enclosing : Option String)
      (s : ParserState) :
    IfRead (readTag tags k tag line enclosing) s fun node t =>
      outlineFrom (Place.ofTag tag.name) s.stream.ahead =
        node.outline ++ outlineFrom .apart t.stream.ahead
  readBranches (line : Nat) {otherwise : Option (List Node)} (enclosing : Option String)
      (s : ParserState) (hname : s.stream.current.kind = .name)
      (hlast : otherwise = none ∨ s.stream.current.value = "endif") :
    IfRead (readBranches tags k line otherwise enclosing) s fun result t =>
      outlineOfBody otherwise ++ outlineFrom .apart s.stream.ahead =
        outlineOfBranches result.1 ++ outlineOfBody result.2 ++
          outlineFrom .apart t.stream.ahead

theorem readNodes_keepsOrder (h : AllKeepOrder tags k) (htags : .here ∉ tags.members)
    {ends : List String} (enclosing : Option String)
    (hends : ∀ name ∈ ends, Place.ofTag name = .apart) (s : ParserState) :
    IfRead (readNodes tags (k + 1) ends enclosing) s fun nodes t =>
      outlineFrom .apart s.stream.ahead =
        outlineOfNodes nodes ++ outlineFrom .apart t.stream.ahead ∧ EndsAt ends t.stream := by
  have hcons : ∀ (node : Node) (t : ParserState),
      outlineFrom .apart s.stream.ahead =
          node.outline ++ outlineFrom .apart t.stream.ahead →
        IfRead
          (do
            let nodes ← readNodes tags k ends enclosing
            return node :: nodes) t
          fun nodes u => outlineFrom .apart s.stream.ahead =
            outlineOfNodes nodes ++ outlineFrom .apart u.stream.ahead ∧ EndsAt ends u.stream := by
    intro node t hnode
    apply (h.readNodes enclosing hends t).bind
    rintro nodes u ⟨hnodes, hend⟩
    refine .pure ⟨?_, hend⟩
    rw [hnode, hnodes, outlineOfNodes, List.append_assoc]
  rw [readNodes, Grammar.nodes]
  apply gives_lift_current
  split
  · next hkind =>
    split
    · next hempty => exact .pure ⟨rfl, .inl ⟨List.isEmpty_iff.1 hempty, hkind⟩⟩
    · exact ifRead_lift_fail s _ _
  · next hkind =>
    apply (ifRead_lift_next s).bind
    rintro _ t ⟨rfl, hahead⟩
    apply hcons
    rw [hahead, outlineFrom_text hkind]
    rfl
  · next hkind =>
    apply (ifRead_lift_next s).bind
    rintro token t ⟨rfl, hahead⟩
    apply (ifRead_lift Expr.read_staysInside t).bind
    intro expr u htu
    apply (gives_lift (gives_expect trivial trivial)).bind
    rintro close v ⟨⟨-, hclose⟩, htest⟩
    rw [Token.test_none, beq_iff_eq] at htest
    apply hcons
    rw [hahead, outlineFrom_varStart hkind, outlineFrom_of_passesTo htu, hclose,
      outlineFrom_endsTag (.inr htest)]
    rfl
  · next hkind =>
    apply (ifRead_lift_next s).bind
    rintro token t ⟨rfl, hahead⟩
    apply gives_lift_current
    split
    · exact ifRead_lift_fail t _ _
    next hname =>
    have hname : t.stream.current.kind = .name := Decidable.of_not_not hname
    split
    · next hvalue =>
      refine .pure ⟨?_, .inr ⟨hname, hvalue⟩⟩
      rw [hahead, TokenStream.ahead, outlineFrom_tag hkind hname, hends _ hvalue,
        outlineFrom_inner (by rw [hname]; rfl)]
      rfl
    split
    · exact ifRead_lift_fail t _ _
    · next tag htag =>
      obtain ⟨hmember, hvalue⟩ := mem_of_find? htag
      apply (ifRead_lift_next t).bind
      rintro name u ⟨rfl, hbehind⟩
      have hknown : tag ≠ .here := fun htag => htags (htag ▸ hmember)
      apply (h.readTag hknown _ enclosing u).bind
      intro node v hnode
      apply hcons
      rw [hahead, hbehind, outlineFrom_tag hkind hname, ← hvalue, hnode]
  · exact ifRead_lift_fail s _ _

theorem readTag_keepsOrder (h : AllKeepOrder tags k) {tag : Tag} (htag : tag ≠ .here) (line : Nat)
    (enclosing : Option String) (s : ParserState) :
    IfRead (readTag tags (k + 1) tag line enclosing) s fun node t =>
      outlineFrom (Place.ofTag tag.name) s.stream.ahead =
        node.outline ++ outlineFrom .apart t.stream.ahead := by
  cases tag with
  | here => exact absurd rfl htag
  | comment =>
    rw [readTag, Grammar.tag]
    exact gives_lift (ifRead_readComment s.stream)
  | choice =>
    rw [readTag, Grammar.tag]
    apply (ifRead_lastExpression s).bind
    intro condition t hst
    apply (h.readNodes enclosing (by decide) t).bind
    rintro body u ⟨hbody, hend⟩
    obtain ⟨hname, -⟩ := hend.name (by simp)
    apply (h.readBranches line enclosing u hname (.inl rfl)).bind
    rintro ⟨branches, otherwise⟩ v hbranches
    apply (ifRead_blockEnd_apart v).bind
    intro _ w hvw
    refine .pure ?_
    rw [outlineOfBody, List.nil_append] at hbranches
    show outlineFrom .apart s.stream.ahead = _
    rw [hst, hbody, hbranches, hvw, Node.outline, outlineOfBranches]
    simp only [List.append_assoc]
  | loop =>
    rw [readTag, Grammar.tag]
    apply (ifRead_lift readLoopNames_staysInside s).bind
    rintro ⟨key, target⟩ t hst
    apply (ifRead_lastExpression t).bind
    intro iterable u htu
    apply (h.readNodes enclosing (by decide) u).bind
    rintro body v ⟨hbody, hend⟩
    obtain ⟨hname, -⟩ := hend.name (by simp)
    apply (ifRead_lift_next_name hname).bind
    rintro ending w ⟨-, hvw⟩
    have hfront : outlineFrom .apart s.stream.ahead =
        outlineOfNodes body ++ outlineFrom .apart w.stream.ahead := by
      rw [outlineFrom_of_passesTo hst, htu, hbody, hvw]
    have hclose : ∀ (otherwise : Option (List Node)) (x : ParserState),
        outlineFrom .apart w.stream.ahead =
            outlineOfBody otherwise ++ outlineFrom .apart x.stream.ahead →
          IfRead
            (do
              blockEnd
              return Node.loop line key target iterable body otherwise) x
            fun node y => outlineFrom .apart s.stream.ahead =
              node.outline ++ outlineFrom .apart y.stream.ahead := by
      intro otherwise x hotherwise
      apply (ifRead_blockEnd_apart x).bind
      intro _ y hxy
      refine .pure ?_
      rw [hfront, hotherwise, hxy, Node.outline, List.append_assoc]
    split
    · apply (ifRead_blockEnd_apart w).bind
      intro _ x hwx
      apply (h.readNodes enclosing (by decide) x).bind
      rintro otherwise y ⟨hotherwise, hend⟩
      obtain ⟨hname, -⟩ := hend.name (by simp)
      apply (ifRead_lift_next_name hname).bind
      rintro _ z ⟨-, hyz⟩
      apply hclose (some otherwise) z
      rw [hwx, hotherwise, hyz]
      rfl
    · exact hclose none w rfl
  | block =>
    rw [readTag, Grammar.tag]
    apply (gives_lift (gives_expect trivial trivial)).bind
    rintro name t ⟨⟨-, hname⟩, htest⟩
    rw [Token.test_none, beq_iff_eq] at htest
    have hfront : outlineFrom .block s.stream.ahead =
        .block name.value :: outlineFrom .named t.stream.ahead := by
      rw [hname, outlineFrom_block htest]
    apply (ifRead_defineBlock t name.value line).bind
    intro _ u hu
    rw [← hu] at hfront
    apply ifRead_lift_test
    split
    · next hfound =>
      apply (ifRead_blockEnd u).bind
      rintro _ v ⟨close, hend, hahead⟩
      apply (h.readNodes (some name.value) (by decide) v).bind
      rintro body w ⟨hbody, hends⟩
      obtain ⟨hending, -⟩ := hends.name (by simp)
      apply (ifRead_lift_next_name hending).bind
      rintro _ x ⟨-, hwx⟩
      apply (ifRead_lift (readEndName_staysInside name.value) x).bind
      intro _ y hxy
      apply (ifRead_blockEnd_apart y).bind
      intro _ z hyz
      refine .pure ?_
      show outlineFrom .block s.stream.ahead = _
      rw [hfront, hahead, outlineFrom_named_blockEnd hend, hbody, hwx,
        outlineFrom_of_passesTo hxy, hyz]
      rfl
    · next hfound =>
      have hopen : u.stream.current.kind ≠ .blockEnd := by simpa using hfound
      apply (ifRead_lift Expr.read_staysInside u).bind
      intro expr v huv
      apply (ifRead_blockEnd v).bind
      rintro _ w ⟨close, hend, hahead⟩
      have hcurrent : v.stream.current = close := (List.cons.inj hahead).1
      refine .pure ?_
      show outlineFrom .block s.stream.ahead = _
      rw [hfront, outlineFrom_named_of_passesTo huv hopen (hcurrent ▸ hend), hahead,
        outlineFrom_endsTag (.inl hend)]
      rfl

theorem readBranches_keepsOrder (h : AllKeepOrder tags k) (line : Nat)
    {otherwise : Option (List Node)} (enclosing : Option String) (s : ParserState)
    (hname : s.stream.current.kind = .name)
    (hlast : otherwise = none ∨ s.stream.current.value = "endif") :
    IfRead (readBranches tags (k + 1) line otherwise enclosing) s fun result t =>
      outlineOfBody otherwise ++ outlineFrom .apart s.stream.ahead =
        outlineOfBranches result.1 ++ outlineOfBody result.2 ++
          outlineFrom .apart t.stream.ahead := by
  rw [readBranches, Grammar.branches]
  apply (ifRead_lift_next_name hname).bind
  rintro ending t ⟨rfl, hst⟩
  have hnone : s.stream.current.value ≠ "endif" → otherwise = none := fun hvalue =>
    hlast.resolve_right hvalue
  split
  · next helse =>
    obtain rfl := hnone (by rw [helse]; decide)
    apply (ifRead_blockEnd_apart t).bind
    intro _ u htu
    apply (h.readNodes enclosing (by decide) u).bind
    rintro body v ⟨hbody, hend⟩
    obtain ⟨hending, hvalue⟩ := hend.name (by simp)
    have hendif : v.stream.current.value = "endif" := by simpa using hvalue
    apply (h.readBranches line enclosing v hending (.inr hendif)).mono
    intro result w hresult
    rw [← hresult, hst, htu, hbody]
    rfl
  split
  · next helseif =>
    obtain rfl := hnone (by rw [helseif]; decide)
    apply (ifRead_lastExpression t).bind
    intro condition u htu
    apply (h.readNodes enclosing (by decide) u).bind
    rintro body v ⟨hbody, hend⟩
    obtain ⟨hending, -⟩ := hend.name (by simp)
    apply (h.readBranches line enclosing v hending (.inl rfl)).bind
    rintro ⟨branches, otherwise⟩ w hbranches
    refine .pure ?_
    rw [outlineOfBody, List.nil_append] at hbranches ⊢
    rw [hst, htu, hbody, hbranches, outlineOfBranches]
    simp only [List.append_assoc]
  split
  · refine .pure ?_
    rw [hst]
    rfl
  · exact ifRead_lift_fail t _ _

theorem allKeepOrder (htags : .here ∉ tags.members) (k : Nat) : AllKeepOrder tags k := by
  induction k with
  | zero =>
    exact
      { readNodes := fun _ _ _ => by rw [readNodes]; exact ifRead_lift_stop _
        readTag := fun _ _ _ _ => by rw [readTag]; exact ifRead_lift_stop _
        readBranches := fun _ _ _ _ _ _ => by rw [readBranches]; exact ifRead_lift_stop _ }
  | succ k ih =>
    exact
      { readNodes := readNodes_keepsOrder ih htags
        readTag := readTag_keepsOrder ih
        readBranches := fun line _ => readBranches_keepsOrder ih line }

/-- A document has the parts of the tokens that it is read from, in their order. -/
theorem outline_eq_of_read (htags : .here ∉ tags.members) {stream : TokenStream}
    {document : Document} (h : read tags stream = .ok document) :
    document.outline = outlineFrom .apart stream.ahead := by
  rw [read_eq_map] at h
  obtain ⟨⟨nodes, t⟩, hread, rfl⟩ := map_eq_ok.1 h
  obtain ⟨hnodes, hend⟩ := ComesTo.of_ok
    ((allKeepOrder htags _).readNodes none (by simp) ⟨stream, []⟩) hread
  have heof : t.stream.current.kind = .eof := by
    rcases hend with ⟨-, heof⟩ | ⟨-, hmember⟩
    · exact heof
    · simp at hmember
  have hnone : outlineFrom .apart t.stream.ahead = [] := by
    rw [TokenStream.ahead, outlineFrom, if_pos heof]
  rw [hnone, List.append_nil] at hnodes
  exact hnodes.symm

end Document

end TemplateEngine
