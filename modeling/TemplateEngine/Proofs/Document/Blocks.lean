import TemplateEngine.Proofs.Document.Marks
import TemplateEngine.Proofs.Document.Parts

/-!
The blocks of documents. Main statement: no two blocks of a document have the same name, wherever
they stand. Where reading fails for a name that has been defined, the line it tells is that of the
only block tag of that name in front of the place.
-/

namespace TemplateEngine

/-- The name of a block with the line of its tag, if the node is a block. -/
def Node.block? : Node → Option (String × Nat)
  | .block line name _ => some (name, line)
  | _ => none

/-- The blocks of a document at every depth, in document order. -/
def Document.blocks (document : Document) : List (String × Nat) :=
  document.parts.filterMap Node.block?

/-- The blocks that are opened in tokens up to the end of the template, each with the line of its
tag. -/
def blockTags (tokens : List Token) : List (String × Nat) :=
  blocksOfMarks (marksFrom .apart tokens)

/-- The name of a block with the line of its tag, if the item is a block. -/
def Item.block? : Item → Option (String × Nat)
  | block line name => some (name, line)
  | _ => none

theorem blocksOfMarks_eq {marks : List Mark} {items : List Item} (h : MakesAll marks items) :
    blocksOfMarks marks = items.filterMap Item.block? := by
  unfold blocksOfMarks
  induction h with
  | nil => rfl
  | @cons mark item _ _ hmakes _ ih =>
    have hblock : mark.block? = item.block? := by cases hmakes <;> rfl
    rw [List.filterMap_cons, List.filterMap_cons, hblock, ih]

mutual

theorem Node.filterMap_items :
    (enclosing : Option String) → (node : Node) →
      (node.items enclosing).filterMap Item.block? = node.parts.filterMap Node.block?
  | _, .text _ _ | _, .print _ _ | _, .comment _ _ _ => rfl
  | enclosing, .choice _ branches otherwise => by
    have hchoice {line : Nat} : (Node.choice line branches otherwise).block? = none := rfl
    rw [Node.items, Node.parts, List.filterMap_cons_none hchoice, List.filterMap_append,
      List.filterMap_append, filterMap_itemsOfBranches enclosing branches,
      filterMap_itemsOfBody enclosing otherwise]
  | enclosing, .loop _ key target iterable body otherwise => by
    have hloop {line : Nat} :
        (Node.loop line key target iterable body otherwise).block? = none := rfl
    rw [Node.items, Node.parts, List.filterMap_cons_none hloop, List.filterMap_append,
      List.filterMap_append, filterMap_itemsOfNodes enclosing body,
      filterMap_itemsOfBody enclosing otherwise]
  | _, .block line name body => by
    have hitem : (Item.block line name).block? = some (name, line) := rfl
    have hnode : (Node.block line name body).block? = some (name, line) := rfl
    rw [Node.items, Node.parts, List.filterMap_cons_some hitem, List.filterMap_cons_some hnode,
      filterMap_itemsOfNodes (some name) body]

theorem filterMap_itemsOfNodes :
    (enclosing : Option String) → (nodes : List Node) →
      (itemsOfNodes enclosing nodes).filterMap Item.block? =
        (partsOfNodes nodes).filterMap Node.block?
  | _, [] => rfl
  | enclosing, node :: nodes => by
    rw [itemsOfNodes, partsOfNodes, List.filterMap_append, List.filterMap_append,
      node.filterMap_items enclosing, filterMap_itemsOfNodes enclosing nodes]

theorem filterMap_itemsOfBranches :
    (enclosing : Option String) → (branches : List Branch) →
      (itemsOfBranches enclosing branches).filterMap Item.block? =
        (partsOfBranches branches).filterMap Node.block?
  | _, [] => rfl
  | enclosing, .mk _ body :: branches => by
    rw [itemsOfBranches, partsOfBranches, List.filterMap_append, List.filterMap_append,
      filterMap_itemsOfNodes enclosing body, filterMap_itemsOfBranches enclosing branches]

theorem filterMap_itemsOfBody :
    (enclosing : Option String) → (otherwise : Option (List Node)) →
      (itemsOfBody enclosing otherwise).filterMap Item.block? =
        (partsOfBody otherwise).filterMap Node.block?
  | _, none => rfl
  | enclosing, some body => filterMap_itemsOfNodes enclosing body

end

/-- A document has the blocks that its marks show. -/
theorem Document.blocks_eq {document : Document} {tokens : List Token}
    (h : MakesAll (marksFrom .apart tokens) document.items) :
    document.blocks = blockTags tokens := by
  rw [blockTags, blocksOfMarks_eq h]
  exact (filterMap_itemsOfNodes none document.nodes).symm

namespace Document

/-- Whatever the tags and the tokens: the blocks of a document have different names, at all depths,
and are those of the block tags from left to right. Where the name of a block is refused because it
has been defined, the block tags in front of this one have different names, and the line that the
error tells is the line of the one among them that has the name. -/
theorem read_blocks_distinct (tags : TagSet) (stream : TokenStream) :
    (∀ document, read tags stream = .ok document →
      (document.blocks.map Prod.fst).Nodup ∧ document.blocks = blockTags stream.ahead) ∧
    ∀ e name defined, read tags stream = .error e → e.fault = .duplicateBlock name defined →
      ∃ front behind, blockTags stream.ahead = front ++ (name, e.line) :: behind ∧
        (front.map Prod.fst).Nodup ∧ (name, defined) ∈ front := by
  have hread := read_makes tags stream
  constructor
  · intro document h
    obtain ⟨hmakes, hdistinct⟩ := hread.of_ok h
    rw [blocks_eq hmakes]
    exact ⟨hdistinct, rfl⟩
  · intro e name defined h hfault
    obtain ⟨front, behind, hmarks, hmem, hdistinct⟩ := hread.of_error h name defined hfault
    refine ⟨blocksOfMarks front, blocksOfMarks behind, ?_, ?_, ?_⟩
    · have hmark : (Mark.block e.line name).block? = some (name, e.line) := rfl
      rw [blockTags]
      show blocksOfMarks (marksFrom .apart (ParserState.mk stream []).stream.ahead) = _
      rw [hmarks, blocksOfMarks, List.filterMap_append, List.filterMap_cons_some hmark]
      rfl
    · have hnodup := hdistinct List.nodup_nil
      rwa [List.append_nil, List.map_reverse, List.nodup_reverse] at hnodup
    · rwa [List.append_nil, List.mem_reverse] at hmem

/-- A block in short form, in a branch, inside of the block `a`. -/
def branchTokens (name : String) : List Token :=
  [⟨.blockStart, "\x7b%", 1⟩, ⟨.name, "block", 1⟩, ⟨.name, "a", 1⟩, ⟨.blockEnd, "%\x7d", 1⟩,
    ⟨.blockStart, "\x7b%", 2⟩, ⟨.name, "if", 2⟩, ⟨.name, "x", 2⟩, ⟨.blockEnd, "%\x7d", 2⟩,
    ⟨.blockStart, "\x7b%", 3⟩, ⟨.name, "block", 3⟩, ⟨.name, name, 3⟩, ⟨.name, "x", 3⟩,
    ⟨.blockEnd, "%\x7d", 3⟩, ⟨.blockStart, "\x7b%", 4⟩, ⟨.name, "endif", 4⟩,
    ⟨.blockEnd, "%\x7d", 4⟩, ⟨.blockStart, "\x7b%", 5⟩, ⟨.name, "endblock", 5⟩,
    ⟨.blockEnd, "%\x7d", 5⟩]

/-- Of two nested blocks the inner one may not have the name of the outer one. -/
theorem read_blocks_distinct_nested :
    (∃ document, read .builtins (.ofTokens (branchTokens "b") "page") = .ok document ∧
      document.blocks = [("a", 1), ("b", 3)] ∧ (document.blocks.map Prod.fst).Nodup) ∧
    ∃ e, read .builtins (.ofTokens (branchTokens "a") "page") = .error e ∧
      e = ⟨.duplicateBlock "a" 1, 3, "page"⟩ ∧
      ∃ front behind, blockTags (TokenStream.ofTokens (branchTokens "a") "page").ahead =
          front ++ ("a", e.line) :: behind ∧
        (front.map Prod.fst).Nodup ∧ ("a", 1) ∈ front := by
  constructor
  · have hread : (read .builtins (.ofTokens (branchTokens "b") "page")).map blocks =
        .ok [("a", 1), ("b", 3)] := by
      decide +kernel
    obtain ⟨document, hdocument, hblocks⟩ := map_eq_ok.1 hread
    have hdistinct := (read_blocks_distinct _ _).1 document hdocument
    exact ⟨document, hdocument, hblocks, hdistinct.1⟩
  · have hread : read .builtins (.ofTokens (branchTokens "a") "page") =
        .error ⟨.duplicateBlock "a" 1, 3, "page"⟩ := by
      decide +kernel
    exact ⟨_, hread, rfl, (read_blocks_distinct _ _).2 _ "a" 1 hread rfl⟩

end Document

end TemplateEngine
