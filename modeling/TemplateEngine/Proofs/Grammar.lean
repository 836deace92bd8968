import TemplateEngine.Document.Parser

/-!
Two parsers that go by the same rules. Main statement: a relation that holds of the tokens that both
read, and of reads in a row if it holds of each, holds of every rule of the grammar if it holds of
the routines that the rule calls.
-/

namespace TemplateEngine

namespace Grammar

open TokenReader

variable {ι : Type} {m n : Type → Type} [Monad m] [Monad n]
  {R : ι → ι → {α : Type} → m α → n α → Prop} {lift : {α : Type} → TokenReader α → m α}
  {lift' : {α : Type} → TokenReader α → n α}

/-- A relation between reads of two parsers that start in one place and end in another one. It holds
of tokens that both read, and of reads in a row if it holds of each. -/
structure Correspondence (R : ι → ι → {α : Type} → m α → n α → Prop)
    (lift : {α : Type} → TokenReader α → m α) (lift' : {α : Type} → TokenReader α → n α) :
    Prop where
  pure {i : ι} {α : Type} (a : α) : R i i (Pure.pure a : m α) (Pure.pure a : n α)
  lift {i : ι} {α : Type} (reader : TokenReader α) : R i i (lift reader) (lift' reader)
  bind {i j k : ι} {α β : Type} {x : m α} {x' : n α} {f : α → m β} {f' : α → n β}
    (hx : R i j x x') (hf : ∀ a, R j k (f a) (f' a)) : R i k (x >>= f) (x' >>= f')

namespace Correspondence

variable (i : ι)

theorem expression {operand : m Expr} {operand' : n Expr} {operators : Nat → Expr → m Expr}
    {operators' : Nat → Expr → n Expr} (h : Correspondence R lift lift')
    (hoperand : R i i operand operand')
    (hoperators : ∀ minimum left, R i i (operators minimum left) (operators' minimum left))
    (minimum : Nat) :
    R i i (Grammar.expression operand operators minimum)
      (Grammar.expression operand' operators' minimum) := by
  unfold Grammar.expression
  exact h.bind hoperand fun left => hoperators minimum left

variable {expression : Nat → m Expr} {expression' : Nat → n Expr}

theorem operators {operators : Nat → Expr → m Expr} {operators' : Nat → Expr → n Expr}
    (h : Correspondence R lift lift')
    (hexpression : ∀ minimum, R i i (expression minimum) (expression' minimum))
    (hoperators : ∀ minimum left, R i i (operators minimum left) (operators' minimum left))
    (minimum : Nat) (left : Expr) :
    R i i (Grammar.operators lift expression operators minimum left)
      (Grammar.operators lift' expression' operators' minimum left) := by
  unfold Grammar.operators
  apply h.bind (h.lift current)
  intro token
  split
  · exact h.pure left
  · next op _ =>
    split
    · exact h.pure left
    · apply h.bind (h.lift next)
      intro _
      exact h.bind (hexpression op.rightMinimum) fun right => hoperators minimum _

theorem operand {primary : m Expr} {primary' : n Expr} {accesses : Expr → m Expr}
    {accesses' : Expr → n Expr} (h : Correspondence R lift lift')
    (hexpression : ∀ minimum, R i i (expression minimum) (expression' minimum))
    (hprimary : R i i primary primary')
    (haccesses : ∀ object, R i i (accesses object) (accesses' object)) :
    R i i (Grammar.operand lift expression primary accesses)
      (Grammar.operand lift' expression' primary' accesses') := by
  unfold Grammar.operand
  apply h.bind (h.lift current)
  intro token
  split
  · next op _ =>
    apply h.bind (h.lift next)
    intro _
    exact h.bind (hexpression op.precedence) fun operand => h.pure _
  · exact h.bind hprimary haccesses

theorem primary {parts items : Bool → m (List Expr)} {parts' items' : Bool → n (List Expr)}
    (h : Correspondence R lift lift')
    (hexpression : ∀ minimum, R i i (expression minimum) (expression' minimum))
    (hparts : ∀ plainMayFollow, R i i (parts plainMayFollow) (parts' plainMayFollow))
    (hitems : ∀ isFirst, R i i (items isFirst) (items' isFirst)) :
    R i i (Grammar.primary lift expression parts items)
      (Grammar.primary lift' expression' parts' items') := by
  unfold Grammar.primary
  apply h.bind (h.lift current)
  intro token
  split
  · exact h.bind (h.lift next) fun _ => h.pure _
  · exact h.lift _
  · exact h.bind (hparts true) fun parts => h.pure _
  · exact h.bind (hparts true) fun parts => h.pure _
  · split
    · apply h.bind (h.lift next)
      intro _
      apply h.bind (hexpression 0)
      intro inner
      exact h.bind (h.lift _) fun _ => h.pure inner
    split
    · apply h.bind (h.lift next)
      intro _
      apply h.bind (hitems true)
      intro items
      exact h.bind (h.lift _) fun _ => h.pure _
    · exact h.lift _

theorem parts {parts : Bool → m (List Expr)} {parts' : Bool → n (List Expr)}
    (h : Correspondence R lift lift')
    (hexpression : ∀ minimum, R i i (expression minimum) (expression' minimum))
    (hparts : ∀ plainMayFollow, R i i (parts plainMayFollow) (parts' plainMayFollow))
    (plainMayFollow : Bool) :
    R i i (Grammar.parts lift expression parts plainMayFollow)
      (Grammar.parts lift' expression' parts' plainMayFollow) := by
  unfold Grammar.parts
  have hinterpolated : R i i
      (do
        let inner ← expression 0
        let _ ← lift (expect .interpolationEnd none)
        let parts ← parts true
        return inner :: parts)
      (do
        let inner ← expression' 0
        let _ ← lift' (expect .interpolationEnd none)
        let parts ← parts' true
        return inner :: parts) := by
    apply h.bind (hexpression 0)
    intro inner
    apply h.bind (h.lift _)
    intro _
    exact h.bind (hparts true) fun parts => h.pure _
  cases plainMayFollow
  case' false => apply h.bind (h.pure none)
  case' true => apply h.bind (h.lift _)
  all_goals
    rintro (_ | token)
    · apply h.bind (h.lift _)
      rintro (_ | start)
      · exact h.pure []
      · exact hinterpolated
    · exact h.bind (hparts false) fun parts => h.pure _

theorem items {items : Bool → m (List Expr)} {items' : Bool → n (List Expr)}
    (h : Correspondence R lift lift')
    (hexpression : ∀ minimum, R i i (expression minimum) (expression' minimum))
    (hitems : ∀ isFirst, R i i (items isFirst) (items' isFirst)) (isFirst : Bool) :
    R i i (Grammar.items lift expression items isFirst)
      (Grammar.items lift' expression' items' isFirst) := by
  unfold Grammar.items
  have hitem : ∀ found : Bool, R i i
      (if found then return []
       else do
        let item ← expression 0
        let items ← items false
        return item :: items)
      (if found then return []
       else do
        let item ← expression' 0
        let items ← items' false
        return item :: items) := by
    intro found
    split
    · exact h.pure []
    · apply h.bind (hexpression 0)
      intro item
      exact h.bind (hitems false) fun items => h.pure _
  apply h.bind (h.lift _)
  intro found
  split
  · exact h.pure []
  · cases isFirst with
    | true => exact h.bind (h.lift _) hitem
    | false => exact h.bind (h.lift _) fun _ => h.bind (h.lift _) hitem

theorem arguments {arguments : Bool → m (List Expr)} {arguments' : Bool → n (List Expr)}
    (h : Correspondence R lift lift')
    (hexpression : ∀ minimum, R i i (expression minimum) (expression' minimum))
    (harguments : ∀ isFirst, R i i (arguments isFirst) (arguments' isFirst)) (isFirst : Bool) :
    R i i (Grammar.arguments lift expression arguments isFirst)
      (Grammar.arguments lift' expression' arguments' isFirst) := by
  unfold Grammar.arguments
  have hargument : R i i
      (do
        let arg ← expression 0
        let args ← arguments false
        return arg :: args)
      (do
        let arg ← expression' 0
        let args ← arguments' false
        return arg :: args) := by
    apply h.bind (hexpression 0)
    intro arg
    exact h.bind (harguments false) fun args => h.pure _
  apply h.bind (h.lift _)
  intro found
  split
  · exact h.pure []
  · cases isFirst with
    | true => exact hargument
    | false => exact h.bind (h.lift _) fun _ => hargument

theorem accesses {arguments : Bool → m (List Expr)} {arguments' : Bool → n (List Expr)}
    {accesses : Expr → m Expr} {accesses' : Expr → n Expr} (h : Correspondence R lift lift')
    (hexpression : ∀ minimum, R i i (expression minimum) (expression' minimum))
    (harguments : ∀ isFirst, R i i (arguments isFirst) (arguments' isFirst))
    (haccesses : ∀ object, R i i (accesses object) (accesses' object)) (object : Expr) :
    R i i (Grammar.accesses lift expression arguments accesses object)
      (Grammar.accesses lift' expression' arguments' accesses' object) := by
  unfold Grammar.accesses
  apply h.bind (h.lift current)
  intro token
  split
  · apply h.bind (h.lift next)
    intro _
    exact h.bind (h.lift _) fun member => haccesses _
  split
  · apply h.bind (h.lift next)
    intro _
    apply h.bind (hexpression 0)
    intro index
    exact h.bind (h.lift _) fun _ => haccesses _
  split
  · apply h.bind (h.lift next)
    intro _
    apply h.bind (h.lift _)
    intro name
    apply h.bind (h.lift _)
    intro found
    split
    · apply h.bind (h.lift next)
      intro _
      apply h.bind (harguments true)
      intro args
      exact h.bind (h.lift _) fun _ => haccesses _
    · exact haccesses _
  · exact h.pure object

variable {expr last : m Expr} {expr' last' : n Expr} {blockEnd : m Unit} {blockEnd' : n Unit}

theorem nodes {tag : Tag → Nat → m Node} {tag' : Tag → Nat → n Node} {nodes : m (List Node)}
    {nodes' : n (List Node)} (h : Correspondence R lift lift') (hexpr : R i i expr expr')
    (htag : ∀ known line, R i i (tag known line) (tag' known line)) (hnodes : R i i nodes nodes')
    (tags : TagSet) (ends : List String) :
    R i i (Grammar.nodes lift expr tag nodes tags ends)
      (Grammar.nodes lift' expr' tag' nodes' tags ends) := by
  unfold Grammar.nodes
  have hcons : ∀ node, R i i
      (do
        let nodes ← nodes
        return node :: nodes)
      (do
        let nodes ← nodes'
        return node :: nodes) :=
    fun node => h.bind hnodes fun nodes => h.pure _
  apply h.bind (h.lift current)
  intro token
  split
  · split
    · exact h.pure []
    · exact h.lift _
  · exact h.bind (h.lift next) fun _ => hcons _
  · apply h.bind (h.lift next)
    intro _
    apply h.bind hexpr
    intro expr
    exact h.bind (h.lift _) fun _ => hcons _
  · apply h.bind (h.lift next)
    intro _
    apply h.bind (h.lift current)
    intro name
    split
    · exact h.lift _
    split
    · exact h.pure []
    split
    · exact h.lift _
    · next known _ =>
      apply h.bind (h.lift next)
      intro _
      exact h.bind (htag known name.line) fun node => hcons node
  · exact h.lift _

variable {nodes : List String → m (List Node)} {nodes' : List String → n (List Node)}

/-- The nodes of a block are read in a place of their own. -/
theorem tag {openBlock : String → Nat → m Unit} {openBlock' : String → Nat → n Unit}
    {closeBlock : m Unit} {closeBlock' : n Unit} {innermost : m (Option String)}
    {innermost' : n (Option String)} {blockNodes : String → m (List Node)}
    {blockNodes' : String → n (List Node)}
    {branches : Nat → Option (List Node) → m (List Branch × Option (List Node))}
    {branches' : Nat → Option (List Node) → n (List Branch × Option (List Node))}
    (inside : String → ι) (h : Correspondence R lift lift') (hexpr : ∀ i, R i i expr expr')
    (hlast : R i i last last')
    (hend : ∀ i, R i i blockEnd blockEnd')
    (hopen : ∀ name line, R i (inside name) (openBlock name line) (openBlock' name line))
    (hclose : ∀ name, R (inside name) i closeBlock closeBlock')
    (hinnermost : R i i innermost innermost') (hnodes : ∀ ends, R i i (nodes ends) (nodes' ends))
    (hblock : ∀ name, R (inside name) (inside name) (blockNodes name) (blockNodes' name))
    (hbranches : ∀ line otherwise, R i i (branches line otherwise) (branches' line otherwise))
    (known : Tag) (line : Nat) :
    R i i
      (Grammar.tag lift expr last blockEnd openBlock closeBlock innermost nodes blockNodes branches
        known line)
      (Grammar.tag lift' expr' last' blockEnd' openBlock' closeBlock' innermost' nodes' blockNodes'
        branches' known line) := by
  cases known with
  | choice =>
    apply h.bind hlast
    intro condition
    apply h.bind (hnodes _)
    intro body
    apply h.bind (hbranches line none)
    intro branches
    exact h.bind (hend i) fun _ => h.pure _
  | loop =>
    apply h.bind (h.lift _)
    intro names
    apply h.bind hlast
    intro iterable
    apply h.bind (hnodes _)
    intro body
    have hleave : ∀ otherwise, R i i
        (do blockEnd; return Node.loop line names.1 names.2 iterable body otherwise)
        (do blockEnd'; return Node.loop line names.1 names.2 iterable body otherwise) :=
      fun otherwise => h.bind (hend i) fun _ => h.pure _
    apply h.bind (h.lift next)
    intro ending
    split
    · apply h.bind (hend i)
      intro _
      apply h.bind (hnodes _)
      intro otherwise
      apply h.bind (h.lift next)
      intro _
      exact h.bind (h.pure _) hleave
    · exact h.bind (h.pure none) hleave
  | block =>
    apply h.bind (h.lift _)
    intro name
    apply h.bind (hopen name.value line)
    intro _
    have hleave : ∀ body, R (inside name.value) i
        (do closeBlock; return Node.block line name.value body)
        (do closeBlock'; return Node.block line name.value body) :=
      fun body => h.bind (hclose name.value) fun _ => h.pure _
    apply h.bind (h.lift _)
    intro ends
    split
    · apply h.bind (hend _)
      intro _
      apply h.bind (hblock name.value)
      intro body
      apply h.bind (h.lift next)
      intro _
      apply h.bind (h.lift _)
      intro _
      exact h.bind (h.pure body) hleave
    · apply h.bind (hexpr _)
      intro expr
      exact h.bind (h.pure _) hleave
  | comment => exact h.lift _
  | here =>
    apply h.bind (hend i)
    intro _
    exact h.bind hinnermost fun block => h.pure _

theorem branches {branches : Nat → Option (List Node) → m (List Branch × Option (List Node))}
    {branches' : Nat → Option (List Node) → n (List Branch × Option (List Node))}
    (h : Correspondence R lift lift') (hlast : R i i last last')
    (hend : R i i blockEnd blockEnd') (hnodes : ∀ ends, R i i (nodes ends) (nodes' ends))
    (hbranches : ∀ line otherwise, R i i (branches line otherwise) (branches' line otherwise))
    (line : Nat) (otherwise : Option (List Node)) :
    R i i (Grammar.branches lift last blockEnd nodes branches line otherwise)
      (Grammar.branches lift' last' blockEnd' nodes' branches' line otherwise) := by
  unfold Grammar.branches
  apply h.bind (h.lift next)
  intro ending
  split
  · apply h.bind hend
    intro _
    exact h.bind (hnodes _) fun body => hbranches line _
  split
  · apply h.bind hlast
    intro condition
    apply h.bind (hnodes _)
    intro body
    exact h.bind (hbranches line otherwise) fun branches => h.pure _
  split
  · exact h.pure _
  · exact h.lift _

end Correspondence

end Grammar

end TemplateEngine
