import TemplateEngine.Document
import TemplateEngine.Document.Tag
import TemplateEngine.Expr.Parser

/-!
Reading documents from tokens. The rules are written as those for expressions are, also in terms of
what it means to open a block, to close it and to ask for the innermost one. The functions that read
keep the innermost block as an argument and take at most the given number of steps down;
`Document.read` gives as many as the tokens can need.
-/

namespace TemplateEngine

namespace Document

open TokenReader

structure ParserState where
  stream : TokenStream
  blocks : List (String × Nat)

abbrev Reader := EStateM SyntaxError ParserState

def lift {α : Type} (reader : TokenReader α) : Reader α := fun state =>
  match reader state.stream with
  | .ok result stream => .ok result { state with stream := stream }
  | .error e stream => .error e { state with stream := stream }

def defineBlock (name : String) (line : Nat) : Reader Unit := do
  let state ← get
  match state.blocks.lookup name with
  | some defined => lift (fail (.duplicateBlock name defined) line)
  | none => set { state with blocks := (name, line) :: state.blocks }

def blockEnd : Reader Unit := do
  let _ ← lift (expect .blockEnd none)

def lastExpression : Reader Expr := do
  let expr ← lift Expr.read
  blockEnd
  return expr

/-- Reads the rest of a comment tag. A string is an exposed comment; a lexed comment has a text. -/
def readComment : TokenReader Node := do
  let token ← current
  let exposed := token.kind == .string
  if exposed then
    modify fun stream => stream.inject [⟨.text, token.value, token.line⟩]
    let _ ← next
  let text ← expect .text none
  let _ ← expect .blockEnd none
  return .comment token.line text.value exposed

def readLoopNames : TokenReader (Option String × String) := do
  let first ← expect .name none
  let names ←
    match ← nextIf .punctuation (some ",") with
    | some _ =>
      let target ← expect .name none
      pure (some first.value, target.value)
    | none => pure (none, first.value)
  let _ ← expect .operator (some "in")
  return names

/-- Takes the name behind `endblock`, if there is one; it must be that of the block. -/
def readEndName (name : String) : TokenReader Unit := do
  match ← nextIf .name none with
  | some given =>
    if given.value = name then return ()
    else fail (.wrongEndblock name given.value) given.line
  | none => return ()

end Document

namespace Grammar

open TokenReader

variable {m : Type → Type} [Monad m] (lift : {α : Type} → TokenReader α → m α)

/-- The nodes up to a tag whose name is among `ends`, which is left current, or up to the end of
the template when there are none. -/
def nodes (expression : m Expr) (tag : Tag → Nat → m Node) (nodes : m (List Node)) (tags : TagSet)
    (ends : List String) : m (List Node) := do
  let token ← lift current
  match token.kind with
  | .eof =>
    if ends.isEmpty then return []
    else lift (fail (.missingEndTag ends) token.line)
  | .text =>
    let _ ← lift next
    let nodes ← nodes
    return .text token.line token.value :: nodes
  | .varStart =>
    let _ ← lift next
    let expr ← expression
    let _ ← lift (expect .varEnd none)
    let nodes ← nodes
    return .print token.line expr :: nodes
  | .blockStart =>
    let _ ← lift next
    let name ← lift current
    if name.kind ≠ .name then lift (fail .missingTagName name.line)
    else if name.value ∈ ends then return []
    else
      match tags.find? name.value with
      | none => lift (fail (.unknownTag name.value ends) name.line)
      | some known =>
        let _ ← lift next
        let node ← tag known name.line
        let nodes ← nodes
        return node :: nodes
  | _ => lift (fail (.unexpectedToken token.kind token.value) token.line)

/-- The rest of a tag whose name stands at `line`. The nodes of a block are its `blockNodes`,
between `openBlock` and `closeBlock`; all others are `nodes` of the block that is innermost. -/
def tag (expression lastExpression : m Expr) (blockEnd : m Unit) (openBlock : String → Nat → m Unit)
    (closeBlock : m Unit) (innermost : m (Option String)) (nodes : List String → m (List Node))
    (blockNodes : String → m (List Node))
    (branches : Nat → Option (List Node) → m (List Branch × Option (List Node)))
    (tag : Tag) (line : Nat) : m Node := do
  match tag with
  | .choice =>
    let condition ← lastExpression
    let body ← nodes ["elseif", "else", "endif"]
    let (branches, otherwise) ← branches line none
    blockEnd
    return .choice line (.mk condition body :: branches) otherwise
  | .loop =>
    let (key, target) ← lift Document.readLoopNames
    let iterable ← lastExpression
    let body ← nodes ["else", "endfor"]
    let ending ← lift next
    let otherwise ←
      if ending.value = "else" then
        blockEnd
        let otherwise ← nodes ["endfor"]
        let _ ← lift next
        pure (some otherwise)
      else pure none
    blockEnd
    return .loop line key target iterable body otherwise
  | .block =>
    let name ← lift (expect .name none)
    openBlock name.value line
    let body ←
      if ← lift (test .blockEnd none) then
        blockEnd
        let body ← blockNodes name.value
        let _ ← lift next
        lift (Document.readEndName name.value)
        pure body
      else
        let expr ← expression
        pure [.print expr.line expr]
    closeBlock
    return .block line name.value body
  | .comment => lift Document.readComment
  | .here =>
    blockEnd
    let block ← innermost
    return .text line (block.getD "-")

/-- The branches behind the first one, from the name of the tag that ended a body up to `endif`.
`otherwise` is the last body, if it has been read. -/
def branches (lastExpression : m Expr) (blockEnd : m Unit) (nodes : List String → m (List Node))
    (branches : Nat → Option (List Node) → m (List Branch × Option (List Node)))
    (line : Nat) (otherwise : Option (List Node)) : m (List Branch × Option (List Node)) := do
  let ending ← lift next
  if ending.value = "else" then
    blockEnd
    let body ← nodes ["endif"]
    branches line (some body)
  else if ending.value = "elseif" then
    let condition ← lastExpression
    let body ← nodes ["elseif", "else", "endif"]
    let (branches, otherwise) ← branches line otherwise
    return (.mk condition body :: branches, otherwise)
  else if ending.value = "endif" then return ([], otherwise)
  else lift (fail (.strayIfTag ending.value line) ending.line)

end Grammar

namespace Document

mutual

/-- Reads nodes that stand in the block `enclosing`. -/
def readNodes (tags : TagSet) : Nat → List String → Option String → Reader (List Node)
  | 0, _, _ => lift Expr.stop
  | steps + 1, ends, enclosing =>
    Grammar.nodes lift (lift Expr.read)
      (fun tag line => readTag tags steps tag line enclosing)
      (readNodes tags steps ends enclosing) tags ends

def readTag (tags : TagSet) : Nat → Tag → Nat → Option String → Reader Node
  | 0, _, _, _ => lift Expr.stop
  | steps + 1, tag, line, enclosing =>
    Grammar.tag lift (lift Expr.read) lastExpression blockEnd defineBlock blockEnd (pure enclosing)
      (fun ends => readNodes tags steps ends enclosing)
      (fun name => readNodes tags steps ["endblock"] (some name))
      (fun line otherwise => readBranches tags steps line otherwise enclosing) tag line

def readBranches (tags : TagSet) :
    Nat → Nat → Option (List Node) → Option String → Reader (List Branch × Option (List Node))
  | 0, _, _, _ => lift Expr.stop
  | steps + 1, line, otherwise, enclosing =>
    Grammar.branches lift lastExpression blockEnd
      (fun ends => readNodes tags steps ends enclosing)
      (fun line otherwise => readBranches tags steps line otherwise enclosing) line otherwise

end

/-- A number of steps that suffices for any document of `n` tokens. -/
def stepLimit (n : Nat) : Nat :=
  3 * n + 3

def read (tags : TagSet) (stream : TokenStream) : Except SyntaxError Document :=
  match readNodes tags (stepLimit stream.after.length) [] none ⟨stream, []⟩ with
  | .ok nodes _ => .ok ⟨stream.source, nodes⟩
  | .error e _ => .error e

end Document

end TemplateEngine
