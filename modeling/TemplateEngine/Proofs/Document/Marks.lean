import Mathlib.Data.List.Forall2
import Mathlib.Data.List.Nodup
import TemplateEngine.Proofs.Document.Outline

/-!
Texts, tags `here` and blocks. A scan of tokens marks them, and a document has an item for each of
its texts and blocks. Main statement: reading makes the items of a document from the marks of the
tokens, one by one, and the blocks among them have different names. If it fails for a name that two
blocks have, both are marked in the tokens.
-/

namespace TemplateEngine

inductive Mark where
  | text (line : Nat) (text : String)
  | here (line : Nat)
  | block (line : Nat) (name : String)
  deriving Repr, DecidableEq

/-- The name of a block with its line, if the mark is that of a block. -/
def Mark.block? : Mark → Option (String × Nat)
  | block line name => some (name, line)
  | _ => none

def blocksOfMarks (marks : List Mark) : List (String × Nat) :=
  marks.filterMap Mark.block?

inductive Spot where
  | apart
  | opened
  | comment
  | block (line : Nat)
  deriving Repr, DecidableEq

def Tag.ofName? (name : String) : Option Tag :=
  Tag.all.find? (·.name == name)

def Tag.spot (line : Nat) : Tag → Spot
  | comment => .comment
  | block => .block line
  | _ => .apart

def Tag.marks (line : Nat) : Tag → List Mark
  | here => [.here line]
  | _ => []

namespace Spot

def next : Spot → Token → Spot
  | opened, token => ((Tag.ofName? token.value).map (Tag.spot token.line)).getD apart
  | _, token => if token.kind = .blockStart then opened else apart

def marks : Spot → Token → List Mark
  | apart, token => if token.kind = .text then [.text token.line token.value] else []
  | opened, token => ((Tag.ofName? token.value).map (Tag.marks token.line)).getD []
  | comment, _ => []
  | block line, token => if token.kind = .name then [.block line token.value] else []

end Spot

/-- The marks that a scan finds in tokens, up to the end of the template. -/
def marksFrom : Spot → List Token → List Mark
  | _, [] => []
  | spot, token :: tokens =>
    if token.kind = .eof then [] else spot.marks token ++ marksFrom (spot.next token) tokens

section

variable {token : Token} {tokens : List Token}

theorem Tag.ofName?_name (tag : Tag) : Tag.ofName? tag.name = some tag := by
  cases tag <;> rfl

theorem marksFrom_cons (spot : Spot) (htoken : token.kind ≠ .eof) :
    marksFrom spot (token :: tokens) = spot.marks token ++ marksFrom (spot.next token) tokens := by
  rw [marksFrom, if_neg htoken]

/-- A token that is neither a text nor the opening of a tag adds nothing. -/
theorem marksFrom_apart (heof : token.kind ≠ .eof) (htext : token.kind ≠ .text)
    (hopening : token.kind ≠ .blockStart) :
    marksFrom .apart (token :: tokens) = marksFrom .apart tokens := by
  rw [marksFrom_cons .apart heof, Spot.marks, if_neg htext, Spot.next, if_neg hopening]
  · rfl
  · simp

theorem marksFrom_inner (htoken : token.kind.isInner = true) :
    marksFrom .apart (token :: tokens) = marksFrom .apart tokens :=
  marksFrom_apart (kind_ne_of_isInner htoken rfl) (kind_ne_of_isInner htoken rfl)
    (kind_ne_of_isInner htoken rfl)

/-- A name that belongs to no tag adds nothing. -/
theorem marksFrom_opened (htoken : token.kind = .name) (htag : Tag.ofName? token.value = none) :
    marksFrom .opened (token :: tokens) = marksFrom .apart (token :: tokens) := by
  rw [marksFrom_cons .opened (by simp [htoken]), marksFrom_inner (by rw [htoken]; rfl), Spot.marks,
    Spot.next, htag]
  rfl

theorem marksFrom_comment {close : Token} (htoken : token.kind = .string ∨ token.kind = .text)
    (hclose : close.kind = .blockEnd) :
    marksFrom .comment (token :: close :: tokens) = marksFrom .apart tokens := by
  have heof : token.kind ≠ .eof := by
    rcases htoken with h | h <;> rw [h] <;> simp
  have hapart : Spot.next .comment token = .apart := by
    rcases htoken with h | h <;> simp [Spot.next, h]
  rw [marksFrom_cons .comment heof, hapart, marksFrom_apart (by simp [hclose]) (by simp [hclose])
    (by simp [hclose])]
  rfl

theorem marksFrom_block (line : Nat) (htoken : token.kind = .name) :
    marksFrom (.block line) (token :: tokens) =
      .block line token.value :: marksFrom .apart tokens := by
  rw [marksFrom_cons (.block line) (by simp [htoken])]
  simp [Spot.marks, Spot.next, htoken]

theorem marksFrom_of_passesTo {s t : TokenStream} (h : s.PassesTo t) :
    marksFrom .apart s.ahead = marksFrom .apart t.ahead := by
  obtain ⟨passed, hpassed, -, hahead⟩ := h
  rw [hahead]
  clear hahead
  induction passed with
  | nil => rfl
  | cons token passed ih =>
    obtain ⟨htoken, hpassed⟩ := List.forall_mem_cons.1 hpassed
    rw [List.cons_append, marksFrom_inner htoken, ih hpassed]

end

inductive Item where
  | text (line : Nat) (text : String) (enclosing : Option String)
  | block (line : Nat) (name : String)
  deriving Repr, DecidableEq

mutual

/-- The texts and blocks of a node that stands in the block `enclosing`, in document order. -/
def Node.items : Option String → Node → List Item
  | enclosing, .text line text => [.text line text enclosing]
  | _, .print _ _ => []
  | enclosing, .choice _ branches otherwise =>
    itemsOfBranches enclosing branches ++ itemsOfBody enclosing otherwise
  | enclosing, .loop _ _ _ _ body otherwise =>
    itemsOfNodes enclosing body ++ itemsOfBody enclosing otherwise
  | _, .block line name body => .block line name :: itemsOfNodes (some name) body
  | _, .comment _ _ _ => []

def itemsOfNodes : Option String → List Node → List Item
  | _, [] => []
  | enclosing, node :: nodes => node.items enclosing ++ itemsOfNodes enclosing nodes

def itemsOfBranches : Option String → List Branch → List Item
  | _, [] => []
  | enclosing, .mk _ body :: branches =>
    itemsOfNodes enclosing body ++ itemsOfBranches enclosing branches

def itemsOfBody : Option String → Option (List Node) → List Item
  | _, none => []
  | enclosing, some body => itemsOfNodes enclosing body

end

/-- The texts and blocks of a document, in document order. -/
def Document.items (document : Document) : List Item :=
  itemsOfNodes none document.nodes

/-- What a mark becomes in a document. A tag `here` becomes a text that names the innermost block
around it. -/
inductive Makes : Mark → Item → Prop
  | text (line : Nat) (text : String) (enclosing : Option String) :
      Makes (.text line text) (.text line text enclosing)
  | here (line : Nat) (enclosing : Option String) :
      Makes (.here line) (.text line (enclosing.getD "-") enclosing)
  | block (line : Nat) (name : String) : Makes (.block line name) (.block line name)

abbrev MakesAll (marks : List Mark) (items : List Item) : Prop :=
  List.Forall₂ Makes marks items

namespace Document

open TokenReader

def ParserState.IsDistinct (s : ParserState) : Prop :=
  (s.blocks.map Prod.fst).Nodup

structure Walks (first : Spot) (s : ParserState) (found : List Mark) (last : Spot)
    (t : ParserState) : Prop where
  marks : marksFrom first s.stream.ahead = found ++ marksFrom last t.stream.ahead
  blocks : t.blocks = (blocksOfMarks found).reverse ++ s.blocks
  distinct : s.IsDistinct → t.IsDistinct

/-- If the error is that of a name which two blocks have, the second one is marked ahead, and the
first one is defined already or marked in front of it. -/
def Blames (first : Spot) (s : ParserState) (e : SyntaxError) : Prop :=
  ∀ name defined, e.fault = .duplicateBlock name defined →
    ∃ front behind, marksFrom first s.stream.ahead = front ++ .block e.line name :: behind ∧
      (name, defined) ∈ (blocksOfMarks front).reverse ++ s.blocks ∧
      (s.IsDistinct → (((blocksOfMarks front).reverse ++ s.blocks).map Prod.fst).Nodup)

/-- The read comes to an error that is blamed on two blocks rightly, or to a result and a place with
the marks found on the way there. -/
def Reads {α : Type} (first last : Spot) (reader : Reader α) (s : ParserState)
    (P : α → List Mark → ParserState → Prop) : Prop :=
  Gives (Blames first s) reader s fun a t => ∃ found, Walks first s found last t ∧ P a found t

section

variable {α β : Type} {first middle last : Spot} {s t u : ParserState} {found more : List Mark}
  {P P' : α → List Mark → ParserState → Prop} {Q : β → List Mark → ParserState → Prop}

theorem Walks.refl (h : marksFrom first s.stream.ahead = marksFrom last s.stream.ahead) :
    Walks first s [] last s :=
  ⟨h, rfl, id⟩

theorem Walks.trans (h : Walks first s found middle t) (h' : Walks middle t more last u) :
    Walks first s (found ++ more) last u where
  marks := by rw [h.marks, h'.marks, List.append_assoc]
  blocks := by
    rw [h'.blocks, h.blocks, blocksOfMarks, blocksOfMarks, blocksOfMarks, List.filterMap_append,
      List.reverse_append, List.append_assoc]
  distinct := h'.distinct ∘ h.distinct

theorem Walks.blames {e : SyntaxError} (h : Walks first s found middle t)
    (he : Blames middle t e) : Blames first s e := by
  intro name defined hfault
  obtain ⟨front, behind, hmarks, hmem, hdistinct⟩ := he name defined hfault
  have hblocks : (blocksOfMarks (found ++ front)).reverse ++ s.blocks =
      (blocksOfMarks front).reverse ++ t.blocks := by
    rw [h.blocks, blocksOfMarks, blocksOfMarks, blocksOfMarks, List.filterMap_append,
      List.reverse_append, List.append_assoc]
  refine ⟨found ++ front, behind, ?_, ?_, ?_⟩
  · rw [h.marks, hmarks, List.append_assoc]
  · rwa [hblocks]
  · rw [hblocks]
    exact hdistinct ∘ h.distinct

theorem blames_of_isOrdinary {e : SyntaxError} (he : e.IsOrdinary) : Blames first s e := by
  intro name defined hfault
  rw [SyntaxError.IsOrdinary, hfault] at he
  cases he

theorem gives_blames {reader : Reader α} {R : α → ParserState → Prop}
    (h : Gives SyntaxError.IsOrdinary reader t R) : Gives (Blames first s) reader t R :=
  ComesTo.mono h (fun _ => blames_of_isOrdinary) fun _ => id

theorem gives_lift_blocks {E : SyntaxError → Prop} {reader : TokenReader α}
    {R : α → TokenStream → Prop} (h : Gives E reader s.stream R) :
    Gives E (lift reader) s fun a t => R a t.stream ∧ t.blocks = s.blocks :=
  .of_outcome (outcome_lift reader s) (ComesTo.map h fun _ hresult => ⟨hresult, rfl⟩)

namespace Reads

theorem pure {a : α} (h : marksFrom first s.stream.ahead = marksFrom last s.stream.ahead)
    (hP : P a [] s) : Reads first last (Pure.pure a) s P :=
  Gives.pure ⟨[], .refl h, hP⟩

theorem bind {reader : Reader α} {f : α → Reader β} (h : Reads first middle reader s P)
    (hf : ∀ a found t, P a found t →
      Reads middle last (f a) t fun b more u => Q b (found ++ more) u) :
    Reads first last (reader >>= f) s Q := by
  apply Gives.bind h
  rintro a t ⟨found, hwalks, hP⟩
  apply ComesTo.mono (hf a found t hP) (fun _ => hwalks.blames)
  rintro ⟨b, u⟩ ⟨more, hmore, hQ⟩
  exact ⟨found ++ more, hwalks.trans hmore, hQ⟩

theorem mono {reader : Reader α} (h : Reads first last reader s P)
    (hP : ∀ a found t, P a found t → P' a found t) : Reads first last reader s P' :=
  Gives.mono h fun a t ⟨found, hwalks, hfound⟩ => ⟨found, hwalks, hP a found t hfound⟩

theorem fail {fault : SyntaxFault} (hfault : fault.isDuplicate = false) (line : Nat) :
    Reads first last (lift (TokenReader.fail fault line)) s P :=
  .error (blames_of_isOrdinary hfault)

theorem stop : Reads first last (lift Expr.stop) s P :=
  .error (blames_of_isOrdinary rfl)

theorem current_bind {f : Token → Reader β} (hf : Reads first last (f s.stream.current) s Q) :
    Reads first last (lift current >>= f) s Q :=
  hf

theorem test_bind {kind : TokenKind} {value? : Option String} {f : Bool → Reader β}
    (hf : Reads first last (f (s.stream.current.test kind value?)) s Q) :
    Reads first last (lift (test kind value?) >>= f) s Q :=
  hf

/-- A read from the tokens that marks no block. -/
theorem lift {reader : TokenReader α} {R : α → TokenStream → Prop}
    (h : Gives SyntaxError.IsOrdinary reader s.stream R)
    (hR : ∀ a t, R a t → marksFrom first s.stream.ahead = found ++ marksFrom last t.ahead)
    (hfound : blocksOfMarks found = []) :
    Reads first last (Document.lift reader) s fun a more t => more = found ∧ R a t.stream := by
  apply (gives_blames (gives_lift_blocks h)).mono
  rintro a t ⟨hread, hblocks⟩
  refine ⟨found, ⟨hR a t.stream hread, by rw [hfound, hblocks]; rfl, ?_⟩, rfl, hread⟩
  unfold ParserState.IsDistinct
  rw [hblocks]
  exact id

theorem silent {reader : TokenReader α} {R : α → TokenStream → Prop}
    (h : Gives SyntaxError.IsOrdinary reader s.stream R)
    (hR : ∀ a t, R a t → marksFrom first s.stream.ahead = marksFrom last t.ahead) :
    Reads first last (Document.lift reader) s fun a found t => found = [] ∧ R a t.stream :=
  lift h hR rfl

/-- A read that stays inside a tag finds nothing. -/
theorem inside {reader : TokenReader α} (h : StaysInside reader) :
    Reads .apart .apart (Document.lift reader) s fun _ found _ => found = [] :=
  (silent (h s.stream) fun _ _ => marksFrom_of_passesTo).mono fun _ _ _ => And.left

theorem next (heof : s.stream.current.kind ≠ .eof)
    (hfound : blocksOfMarks (first.marks s.stream.current) = []) :
    Reads first (first.next s.stream.current) (Document.lift TokenReader.next) s
      fun token found _ => token = s.stream.current ∧ found = first.marks s.stream.current := by
  have hnext : Reads first (first.next s.stream.current) (Document.lift TokenReader.next) s _ :=
    lift (ordinary_next s.stream) ?_ hfound
  · exact hnext.mono fun _ _ _ h => ⟨h.2.1, h.1⟩
  · rintro token t ⟨rfl, hahead⟩
    rw [hahead, marksFrom_cons first heof]

theorem next_text (hkind : s.stream.current.kind = .text) :
    Reads .apart .apart (Document.lift TokenReader.next) s fun token found _ =>
      token = s.stream.current ∧
        found = [.text s.stream.current.line s.stream.current.value] := by
  have hnext : Reads .apart _ (Document.lift TokenReader.next) s _ :=
    next (by simp [hkind]) (by simp [Spot.marks, hkind, blocksOfMarks, Mark.block?])
  simpa [Spot.next, Spot.marks, hkind] using hnext

/-- A token that is neither a text nor the opening of a tag. -/
theorem next_apart (heof : s.stream.current.kind ≠ .eof) (htext : s.stream.current.kind ≠ .text)
    (hopening : s.stream.current.kind ≠ .blockStart) :
    Reads .apart .apart (Document.lift TokenReader.next) s fun token found _ =>
      token = s.stream.current ∧ found = [] := by
  have hnext : Reads .apart _ (Document.lift TokenReader.next) s _ :=
    next heof (by simp [Spot.marks, htext, blocksOfMarks])
  simpa [Spot.next, Spot.marks, htext, hopening] using hnext

/-- The name of the tag that ends a body. -/
theorem next_name (hkind : s.stream.current.kind = .name) :
    Reads .apart .apart (Document.lift TokenReader.next) s fun _ found _ => found = [] :=
  (next_apart (by simp [hkind]) (by simp [hkind]) (by simp [hkind])).mono fun _ _ _ => And.right

theorem next_blockStart (hkind : s.stream.current.kind = .blockStart) :
    Reads .apart .opened (Document.lift TokenReader.next) s fun token found _ =>
      token = s.stream.current ∧ found = [] := by
  have hnext : Reads .apart _ (Document.lift TokenReader.next) s _ :=
    next (by simp [hkind]) (by simp [Spot.marks, hkind, blocksOfMarks])
  simpa [Spot.next, Spot.marks, hkind] using hnext

theorem next_tag (hkind : s.stream.current.kind = .name) {tag : Tag}
    (htag : tag.name = s.stream.current.value) :
    Reads .opened (tag.spot s.stream.current.line) (Document.lift TokenReader.next) s
      fun token found _ =>
        token = s.stream.current ∧ found = tag.marks s.stream.current.line := by
  have hmarks : Spot.opened.marks s.stream.current = tag.marks s.stream.current.line := by
    rw [Spot.marks, ← htag, Tag.ofName?_name]
    rfl
  have hspot : Spot.opened.next s.stream.current = tag.spot s.stream.current.line := by
    rw [Spot.next, ← htag, Tag.ofName?_name]
    rfl
  rw [← hmarks, ← hspot]
  apply next (by simp [hkind])
  rw [hmarks]
  cases tag <;> rfl

/-- The closing delimiter of a tag. -/
theorem expect_ending {kind : TokenKind} (hkind : kind.EndsTag) :
    Reads .apart .apart (Document.lift (expect kind none)) s fun _ found _ => found = [] := by
  have hexpect : Reads .apart .apart (Document.lift (expect kind none)) s _ :=
    silent (ordinary_expect s.stream kind none) ?_
  · exact hexpect.mono fun _ _ _ => And.left
  · rintro token t ⟨⟨-, hahead⟩, htest⟩
    rw [Token.test_none, beq_iff_eq] at htest
    have hne : kind ≠ .eof ∧ kind ≠ .text ∧ kind ≠ .blockStart := by
      rcases hkind with rfl | rfl <;> decide
    rw [hahead, marksFrom_apart (htest ▸ hne.1) (htest ▸ hne.2.1) (htest ▸ hne.2.2)]

theorem blockEnd : Reads .apart .apart blockEnd s fun _ found _ => found = [] := by
  unfold Document.blockEnd
  apply (expect_ending (.inl rfl)).bind
  rintro _ _ t rfl
  exact pure rfl rfl

theorem lastExpression : Reads .apart .apart lastExpression s fun _ found _ => found = [] := by
  unfold Document.lastExpression
  apply (inside Expr.read_staysInside).bind
  rintro expr _ t rfl
  apply blockEnd.bind
  rintro _ _ u rfl
  exact pure rfl rfl

theorem readComment (enclosing : Option String) :
    Reads .comment .apart (Document.lift Document.readComment) s fun node found _ =>
      found = [] ∧ node.items enclosing = [] := by
  have hcomment : Reads .comment .apart (Document.lift Document.readComment) s _ :=
    silent (ordinary_readComment s.stream) ?_
  · apply hcomment.mono
    rintro node found t ⟨hfound, token, close, -, -, -, rfl⟩
    exact ⟨hfound, rfl⟩
  · rintro node t ⟨token, close, htoken, hclose, hahead, -⟩
    rw [hahead, marksFrom_comment htoken hclose]

/-- A block begins: its name is marked and defined. A name that has been defined is blamed. -/
theorem opening_bind {line : Nat} {f : Token → Reader β}
    (hf : ∀ name t, Reads .apart last (f name) t fun b found u =>
      Q b (.block line name.value :: found) u) :
    Reads (.block line) last
      (do
        let name ← Document.lift (expect .name none)
        defineBlock name.value line
        f name) s Q := by
  apply (gives_blames (gives_lift_blocks (ordinary_expect s.stream .name none))).bind
  rintro name t ⟨⟨⟨-, hahead⟩, htest⟩, hblocks⟩
  rw [Token.test_none, beq_iff_eq] at htest
  have hmarks : marksFrom (.block line) s.stream.ahead =
      .block line name.value :: marksFrom .apart t.stream.ahead := by
    rw [hahead, marksFrom_block line htest]
  have hdefine : Gives (Blames (.block line) s) (defineBlock name.value line) t fun _ u =>
      Walks (.block line) s [.block line name.value] .apart u := by
    unfold defineBlock
    apply Gives.get_bind
    rw [hblocks]
    split
    · next defined hdefined =>
      obtain ⟨front, behind, hsplit, -⟩ := List.lookup_eq_some_iff.1 hdefined
      refine .error ?_
      intro name' defined' hfault
      obtain ⟨rfl, rfl⟩ := SyntaxFault.duplicateBlock.inj hfault
      exact ⟨[], _, hmarks, by simp [blocksOfMarks, hsplit], id⟩
    · next hnew =>
      rw [List.lookup_eq_none_iff] at hnew
      refine .ok ⟨hmarks, rfl, ?_⟩
      intro hdistinct
      refine List.nodup_cons.2 ⟨?_, hdistinct⟩
      intro hmem
      obtain ⟨block, hblock, heq⟩ := List.mem_map.1 hmem
      simpa [heq] using hnew block hblock
  apply hdefine.bind
  intro _ u hwalks
  apply ComesTo.mono (hf name u) (fun _ => hwalks.blames)
  rintro ⟨b, v⟩ ⟨found, hfound, hQ⟩
  exact ⟨_, hwalks.trans hfound, hQ⟩

end Reads

end

structure AllMake (tags : TagSet) (k : Nat) : Prop where
  readNodes {ends : List String} (enclosing : Option String)
      (hends : ∀ name ∈ ends, Tag.ofName? name = none) (s : ParserState) :
    Reads .apart .apart (readNodes tags k ends enclosing) s fun nodes found t =>
      MakesAll found (itemsOfNodes enclosing nodes) ∧ EndsAt ends t.stream
  readTag (tag : Tag) (line : Nat) (enclosing : Option String) (s : ParserState) :
    Reads (tag.spot line) .apart (readTag tags k tag line enclosing) s fun node found _ =>
      MakesAll (tag.marks line ++ found) (node.items enclosing)
  readBranches (line : Nat) {otherwise : Option (List Node)} (enclosing : Option String)
      (s : ParserState) (hname : s.stream.current.kind = .name)
      (hlast : otherwise = none ∨ s.stream.current.value = "endif") {before : List Mark}
      (hbefore : MakesAll before (itemsOfBody enclosing otherwise)) :
    Reads .apart .apart (readBranches tags k line otherwise enclosing) s fun result found _ =>
      MakesAll (before ++ found)
        (itemsOfBranches enclosing result.1 ++ itemsOfBody enclosing result.2)

section

variable {tags : TagSet} {k : Nat}

theorem readNodes_makes (h : AllMake tags k) {ends : List String} (enclosing : Option String)
    (hends : ∀ name ∈ ends, Tag.ofName? name = none) (s : ParserState) :
    Reads .apart .apart (readNodes tags (k + 1) ends enclosing) s fun nodes found t =>
      MakesAll found (itemsOfNodes enclosing nodes) ∧ EndsAt ends t.stream := by
  have hcons : ∀ (node : Node) (front : List Mark) (t : ParserState),
      MakesAll front (node.items enclosing) →
        Reads .apart .apart
          (do
            let nodes ← readNodes tags k ends enclosing
            return node :: nodes) t
          fun nodes found u =>
            MakesAll (front ++ found) (itemsOfNodes enclosing nodes) ∧ EndsAt ends u.stream := by
    intro node front t hnode
    apply (h.readNodes enclosing hends t).bind
    rintro nodes found u ⟨hnodes, hend⟩
    refine .pure rfl ⟨?_, hend⟩
    rw [List.append_nil]
    exact List.rel_append hnode hnodes
  rw [readNodes, Grammar.nodes]
  apply Reads.current_bind
  split
  · next hkind =>
    split
    · next hempty => exact .pure rfl ⟨.nil, .inl ⟨List.isEmpty_iff.1 hempty, hkind⟩⟩
    · exact .fail rfl _
  · next hkind =>
    apply (Reads.next_text hkind).bind
    rintro _ _ t ⟨-, rfl⟩
    exact hcons _ _ t (.cons (.text _ _ _) .nil)
  · next hkind =>
    apply (Reads.next_apart (by simp [hkind]) (by simp [hkind]) (by simp [hkind])).bind
    rintro token _ t ⟨-, rfl⟩
    apply (Reads.inside Expr.read_staysInside).bind
    rintro expr _ u rfl
    apply (Reads.expect_ending (.inr rfl)).bind
    rintro _ _ v rfl
    exact hcons _ [] v .nil
  · next hkind =>
    apply (Reads.next_blockStart hkind).bind
    rintro token _ t ⟨-, rfl⟩
    apply Reads.current_bind
    split
    · exact .fail rfl _
    next hname =>
    have hname : t.stream.current.kind = .name := Decidable.of_not_not hname
    split
    · next hvalue =>
      refine .pure ?_ ⟨.nil, .inr ⟨hname, hvalue⟩⟩
      exact marksFrom_opened hname (hends _ hvalue)
    split
    · exact .fail rfl _
    · next tag htag =>
      obtain ⟨-, hvalue⟩ := mem_of_find? htag
      apply (Reads.next_tag hname hvalue).bind
      rintro name _ u ⟨-, rfl⟩
      apply (h.readTag tag _ enclosing u).bind
      intro node found v hnode
      simpa using hcons node _ v hnode
  · exact .fail rfl _

theorem readTag_makes (h : AllMake tags k) (tag : Tag) (line : Nat) (enclosing : Option String)
    (s : ParserState) :
    Reads (tag.spot line) .apart (readTag tags (k + 1) tag line enclosing) s fun node found _ =>
      MakesAll (tag.marks line ++ found) (node.items enclosing) := by
  cases tag with
  | here =>
    rw [readTag, Grammar.tag]
    apply Reads.blockEnd.bind
    rintro _ _ t rfl
    exact .pure rfl (.cons (.here line enclosing) .nil)
  | comment =>
    rw [readTag, Grammar.tag]
    apply (Reads.readComment enclosing).mono
    rintro node _ t ⟨rfl, hitems⟩
    rw [hitems]
    exact .nil
  | choice =>
    rw [readTag, Grammar.tag]
    apply Reads.lastExpression.bind
    rintro condition _ t rfl
    apply (h.readNodes enclosing (by decide) t).bind
    rintro body found u ⟨hbody, hend⟩
    obtain ⟨hname, -⟩ := hend.name (by simp)
    apply (h.readBranches line enclosing u hname (.inl rfl) .nil).bind
    rintro ⟨branches, otherwise⟩ more v hbranches
    apply Reads.blockEnd.bind
    rintro _ _ w rfl
    refine .pure rfl ?_
    rw [Node.items, itemsOfBranches, List.append_assoc]
    simpa [Tag.marks] using List.rel_append hbody hbranches
  | loop =>
    rw [readTag, Grammar.tag]
    apply (Reads.inside readLoopNames_staysInside).bind
    rintro ⟨key, target⟩ _ t rfl
    apply Reads.lastExpression.bind
    rintro iterable _ u rfl
    apply (h.readNodes enclosing (by decide) u).bind
    rintro body found v ⟨hbody, hend⟩
    obtain ⟨hname, -⟩ := hend.name (by simp)
    apply (Reads.next_name hname).bind
    rintro ending _ w rfl
    have hclose : ∀ (otherwise : Option (List Node)) (more : List Mark) (x : ParserState),
        MakesAll more (itemsOfBody enclosing otherwise) →
          Reads .apart .apart
            (do
              blockEnd
              return Node.loop line key target iterable body otherwise) x
            fun node rest _ => MakesAll (found ++ (more ++ rest)) (node.items enclosing) := by
      intro otherwise more x hotherwise
      apply Reads.blockEnd.bind
      rintro _ _ y rfl
      refine .pure rfl ?_
      rw [Node.items]
      simpa using List.rel_append hbody hotherwise
    split
    · apply Reads.blockEnd.bind
      rintro _ _ x rfl
      apply (h.readNodes enclosing (by decide) x).bind
      rintro otherwise more y ⟨hotherwise, hend⟩
      obtain ⟨hname, -⟩ := hend.name (by simp)
      apply (Reads.next_name hname).bind
      rintro _ _ z rfl
      simpa [Tag.marks] using hclose (some otherwise) more z hotherwise
    · simpa [Tag.marks] using hclose none [] w .nil
  | block =>
    rw [readTag, Grammar.tag]
    apply Reads.opening_bind
    intro name t
    apply Reads.test_bind
    split
    · apply Reads.blockEnd.bind
      rintro _ _ u rfl
      apply (h.readNodes (some name.value) (by decide) u).bind
      rintro body found v ⟨hbody, hend⟩
      obtain ⟨hname, -⟩ := hend.name (by simp)
      apply (Reads.next_name hname).bind
      rintro _ _ w rfl
      apply (Reads.inside (readEndName_staysInside name.value)).bind
      rintro _ _ x rfl
      apply Reads.blockEnd.bind
      rintro _ _ y rfl
      refine .pure rfl ?_
      simpa [Tag.marks, Node.items] using List.Forall₂.cons (.block line name.value) hbody
    · apply (Reads.inside Expr.read_staysInside).bind
      rintro expr _ u rfl
      apply Reads.blockEnd.bind
      rintro _ _ v rfl
      exact .pure rfl (.cons (.block line name.value) .nil)

theorem readBranches_makes (h : AllMake tags k) (line : Nat) {otherwise : Option (List Node)}
    (enclosing : Option String) (s : ParserState) (hname : s.stream.current.kind = .name)
    (hlast : otherwise = none ∨ s.stream.current.value = "endif") {before : List Mark}
    (hbefore : MakesAll before (itemsOfBody enclosing otherwise)) :
    Reads .apart .apart (readBranches tags (k + 1) line otherwise enclosing) s
      fun result found _ => MakesAll (before ++ found)
        (itemsOfBranches enclosing result.1 ++ itemsOfBody enclosing result.2) := by
  have hnone : s.stream.current.value ≠ "endif" → otherwise = none ∧ before = [] := by
    intro hvalue
    obtain rfl := hlast.resolve_right hvalue
    cases hbefore
    exact ⟨rfl, rfl⟩
  rw [readBranches, Grammar.branches]
  apply (Reads.next_apart (by simp [hname]) (by simp [hname]) (by simp [hname])).bind
  rintro ending _ t ⟨rfl, rfl⟩
  split
  · next helse =>
    obtain ⟨rfl, rfl⟩ := hnone (by rw [helse]; decide)
    apply Reads.blockEnd.bind
    rintro _ _ u rfl
    apply (h.readNodes enclosing (by decide) u).bind
    rintro body found v ⟨hbody, hend⟩
    obtain ⟨hending, hvalue⟩ := hend.name (by simp)
    have hendif : v.stream.current.value = "endif" := by simpa using hvalue
    exact h.readBranches line enclosing v hending (.inr hendif) hbody
  split
  · next helseif =>
    obtain ⟨rfl, rfl⟩ := hnone (by rw [helseif]; decide)
    apply Reads.lastExpression.bind
    rintro condition _ u rfl
    apply (h.readNodes enclosing (by decide) u).bind
    rintro body found v ⟨hbody, hend⟩
    obtain ⟨hending, -⟩ := hend.name (by simp)
    apply (h.readBranches line enclosing v hending (.inl rfl) .nil).bind
    rintro ⟨branches, otherwise⟩ more w hbranches
    refine .pure rfl ?_
    rw [itemsOfBranches, List.append_assoc]
    simpa using List.rel_append hbody hbranches
  split
  · refine .pure rfl ?_
    simpa [itemsOfBranches] using hbefore
  · exact .fail rfl _

theorem allMake (tags : TagSet) (k : Nat) : AllMake tags k := by
  induction k with
  | zero =>
    exact
      { readNodes := fun _ _ _ => by rw [readNodes]; exact .stop
        readTag := fun _ _ _ _ => by rw [readTag]; exact .stop
        readBranches := fun _ _ _ _ _ _ _ _ => by rw [readBranches]; exact .stop }
  | succ k ih =>
    exact
      { readNodes := readNodes_makes ih
        readTag := readTag_makes ih
        readBranches := fun line _ => readBranches_makes ih line }

end

/-- A document is made from the marks of its tokens, and the blocks among them have different names.
If there is none, the names of blocks are blamed rightly. -/
theorem read_makes (tags : TagSet) (stream : TokenStream) :
    ComesTo (Blames .apart ⟨stream, []⟩)
      (fun document => MakesAll (marksFrom .apart stream.ahead) document.items ∧
        ((blocksOfMarks (marksFrom .apart stream.ahead)).map Prod.fst).Nodup)
      (read tags stream) := by
  rw [read_eq_map]
  apply ComesTo.map ((allMake tags _).readNodes none (by simp) ⟨stream, []⟩)
  rintro ⟨nodes, t⟩ ⟨found, hwalks, hnodes, hend⟩
  have heof : t.stream.current.kind = .eof := by
    rcases hend with ⟨-, heof⟩ | ⟨-, hmember⟩
    · exact heof
    · simp at hmember
  have hnone : marksFrom .apart t.stream.ahead = [] := by
    rw [TokenStream.ahead, marksFrom, if_pos heof]
  have hfound : marksFrom .apart stream.ahead = found := by
    have hmarks := hwalks.marks
    rwa [hnone, List.append_nil] at hmarks
  have hdistinct := hwalks.distinct List.nodup_nil
  rw [ParserState.IsDistinct, hwalks.blocks, List.append_nil, List.map_reverse,
    List.nodup_reverse] at hdistinct
  rw [hfound]
  exact ⟨hnodes, hdistinct⟩

end Document

end TemplateEngine
