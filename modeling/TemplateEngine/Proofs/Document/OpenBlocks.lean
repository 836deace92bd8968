import TemplateEngine.Document.OpenBlocks
import TemplateEngine.Proofs.Document.Comments
import TemplateEngine.Proofs.Grammar

/-!
Open blocks in place. Main statement: a parser that enters and leaves blocks reads every token
stream as the one that is told the innermost block, with the same document or the same error.
Reading nodes leaves the blocks open that were open before, however the bodies end.
-/

namespace TemplateEngine.Document.NestedParser

open TokenReader

variable {α : Type} {before left : List String}

/-- In the blocks `before` the read comes to what the other one does, and leaves the blocks `left`
open. -/
def Mirrors (before left : List String) {α : Type} (reader : Reader α) (plain : Document.Reader α) :
    Prop :=
  ∀ p, outcome reader ⟨p, before⟩ = (outcome plain p).map fun result => (result.1, ⟨result.2, left⟩)

theorem mirrors_within (reader : Document.Reader α) :
    Mirrors before before (within reader) reader := by
  intro p
  unfold outcome within
  cases reader p <;> rfl

theorem Mirrors.bind {β : Type} {middle : List String} {reader : Reader α}
    {plain : Document.Reader α} {f : α → Reader β} {g : α → Document.Reader β}
    (h : Mirrors before middle reader plain) (hfg : ∀ a, Mirrors middle left (f a) (g a)) :
    Mirrors before left (reader >>= f) (plain >>= g) := by
  intro p
  rw [outcome_bind, outcome_bind, h p]
  cases outcome plain p with
  | error e => rfl
  | ok result => exact hfg result.1 result.2

theorem mirrors_enterBlock (name : String) (line : Nat) :
    Mirrors before (name :: before) (enterBlock name line) (defineBlock name line) := by
  intro p
  have hdefine : Mirrors before before (within (defineBlock name line)) _ := mirrors_within _
  unfold enterBlock
  rw [outcome_bind, hdefine]
  cases outcome (defineBlock name line) p <;> rfl

theorem mirrors_closeBlock (name : String) :
    Mirrors (name :: before) before closeBlock blockEnd := by
  intro p
  have hend : Mirrors (name :: before) (name :: before) (within blockEnd) _ := mirrors_within _
  unfold closeBlock
  rw [outcome_bind, hend]
  cases outcome blockEnd p <;> rfl

theorem mirrors_currentBlock : Mirrors before before currentBlock (pure before.head?) :=
  fun _ => rfl

theorem correspondence_mirrors : Grammar.Correspondence Mirrors lift Document.lift where
  pure _ _ := rfl
  lift reader := mirrors_within (Document.lift reader)
  bind := Mirrors.bind

structure AllMirror (tags : TagSet) (k : Nat) : Prop where
  readNodes (ends : List String) (openBlocks : List String) :
    Mirrors openBlocks openBlocks (readNodes tags k ends)
      (Document.readNodes tags k ends openBlocks.head?)
  readTag (tag : Tag) (line : Nat) (openBlocks : List String) :
    Mirrors openBlocks openBlocks (readTag tags k tag line)
      (Document.readTag tags k tag line openBlocks.head?)
  readBranches (line : Nat) (otherwise : Option (List Node)) (openBlocks : List String) :
    Mirrors openBlocks openBlocks (readBranches tags k line otherwise)
      (Document.readBranches tags k line otherwise openBlocks.head?)

theorem allMirror (tags : TagSet) (k : Nat) : AllMirror tags k := by
  have h := correspondence_mirrors
  induction k with
  | zero =>
    exact
      { readNodes := fun _ _ => by rw [readNodes, Document.readNodes]; exact h.lift _
        readTag := fun _ _ _ => by rw [readTag, Document.readTag]; exact h.lift _
        readBranches := fun _ _ _ => by rw [readBranches, Document.readBranches]; exact h.lift _ }
  | succ k ih =>
    refine ⟨?readNodes, ?readTag, ?readBranches⟩
    case readNodes =>
      intro ends openBlocks
      rw [readNodes, Document.readNodes]
      exact h.nodes openBlocks (h.lift _) (fun tag line => ih.readTag tag line openBlocks)
        (ih.readNodes ends openBlocks) tags ends
    case readTag =>
      intro tag line openBlocks
      rw [readTag, Document.readTag]
      -- The nodes of a block are read in that block.
      exact h.tag openBlocks (· :: openBlocks) (fun _ => h.lift _) (mirrors_within _)
        (fun _ => mirrors_within _) mirrors_enterBlock mirrors_closeBlock mirrors_currentBlock
        (fun ends => ih.readNodes ends openBlocks)
        (fun name => ih.readNodes ["endblock"] (name :: openBlocks))
        (fun line otherwise => ih.readBranches line otherwise openBlocks) tag line
    case readBranches =>
      intro line otherwise openBlocks
      rw [readBranches, Document.readBranches]
      exact h.branches openBlocks (mirrors_within _) (mirrors_within _)
        (fun ends => ih.readNodes ends openBlocks)
        (fun line otherwise => ih.readBranches line otherwise openBlocks) line otherwise

theorem read_eq_map (tags : TagSet) (stream : TokenStream) :
    read tags stream =
      (outcome (readNodes tags (stepLimit stream.after.length) []) ⟨⟨stream, []⟩, []⟩).map
        fun result => ⟨stream.source, result.1⟩ := by
  unfold read outcome
  cases readNodes tags (stepLimit stream.after.length) [] ⟨⟨stream, []⟩, []⟩ <;> rfl

/-- Every token stream is read to the same document, or to the same error. -/
theorem read_eq (tags : TagSet) (stream : TokenStream) :
    read tags stream = Document.read tags stream := by
  have hmirrors := (allMirror tags (stepLimit stream.after.length)).readNodes [] [] ⟨stream, []⟩
  rw [read_eq_map, Document.read_eq_map, hmirrors, List.head?_nil]
  cases outcome (Document.readNodes tags (stepLimit stream.after.length) [] none) ⟨stream, []⟩ <;>
    rfl

end TemplateEngine.Document.NestedParser
