/-!
The tags that a parser can know, and sets of them.
-/

namespace TemplateEngine

inductive Tag where
  | block
  | comment
  | loop
  | here
  | choice
  deriving Repr, DecidableEq

namespace Tag

def all : List Tag :=
  [block, comment, loop, here, choice]

def name : Tag → String
  | block => "block"
  | comment => "comment"
  | loop => "for"
  | here => "here"
  | choice => "if"

theorem mem_all (tag : Tag) : tag ∈ all := by
  cases tag <;> decide

end Tag

structure TagSet where
  members : List Tag
  deriving Repr, DecidableEq

namespace TagSet

def empty : TagSet :=
  ⟨[]⟩

/-- The tags that every environment starts with. -/
def builtins : TagSet :=
  ⟨[.choice, .loop, .block]⟩

def insert (tag : Tag) (tags : TagSet) : TagSet :=
  if tag ∈ tags.members then tags else ⟨tag :: tags.members⟩

def find? (tags : TagSet) (name : String) : Option Tag :=
  tags.members.find? (·.name == name)

def contains (tags : TagSet) (name : String) : Bool :=
  (tags.find? name).isSome

def names (tags : TagSet) : List String :=
  (Tag.all.filter (· ∈ tags.members)).map Tag.name

@[simp] theorem mem_insert {tag other : Tag} {tags : TagSet} :
    other ∈ (tags.insert tag).members ↔ other = tag ∨ other ∈ tags.members := by
  unfold insert
  split
  · next h =>
    constructor
    · exact .inr
    · rintro (rfl | h')
      · exact h
      · exact h'
  · simp

end TagSet

end TemplateEngine
