import TemplateEngine.Render

/-!
Rendering in place: a page holds the scopes that names are looked up in and the output so far, and
nodes are written onto it one after another. A loop enters the scope of an iteration and leaves it
again, also when its body fails.
-/

namespace TemplateEngine.Render

structure Page where
  scopes : List Scope
  output : String

namespace Page

def blank (context : Json) : Page :=
  ⟨[rootScope context], ""⟩

def enter (scope : Scope) (page : Page) : Page :=
  { page with scopes := scope :: page.scopes }

def leave (page : Page) : Page :=
  { page with scopes := page.scopes.tail }

abbrev Writer := EStateM RenderError Page

def emit (text : String) : Writer Unit :=
  modify fun page => { page with output := page.output ++ text }

def evaluate (options : Options) (expr : Expr) : Writer Evaluated := fun page =>
  match eval options page.scopes expr with
  | .ok value => .ok value page
  | .error e => .error e page

/-- Writes a body inside one more scope, which is left however the body ends. -/
def inScope (scope : Scope) (body : Writer Unit) : Writer Unit := fun page =>
  match body (page.enter scope) with
  | .ok () inner => .ok () inner.leave
  | .error e inner => .error e inner.leave

def repeatIn (body : Writer Unit) : List Scope → Writer Unit
  | [] => pure ()
  | scope :: rest => do
    inScope scope body
    repeatIn body rest

mutual

def writeNode (options : Options) : Node → Writer Unit
  | .text _ text => emit text
  | .print _ expr => do
    let printed ← evaluate options expr
    emit (printText options printed)
  | .choice _ branches otherwise =>
    writeBranches options (writeOtherwise options otherwise) branches
  | .loop _ key target iterable body otherwise => do
    let iterable ← evaluate options iterable
    match loopItems iterable.value with
    | [] => writeOtherwise options otherwise
    | items => repeatIn (writeNodes options body) (loopScopes key target items)
  | .block _ _ body => writeNodes options body
  | .comment _ _ _ => pure ()

def writeNodes (options : Options) : List Node → Writer Unit
  | [] => pure ()
  | node :: nodes => do
    writeNode options node
    writeNodes options nodes

/-- Writes the first branch whose condition holds, and `otherwise` when there is none. -/
def writeBranches (options : Options) (otherwise : Writer Unit) : List Branch → Writer Unit
  | [] => otherwise
  | .mk condition body :: branches => do
    let condition ← evaluate options condition
    if isTruthy condition.value then writeNodes options body
    else writeBranches options otherwise branches

def writeOtherwise (options : Options) : Option (List Node) → Writer Unit
  | none => pure ()
  | some body => writeNodes options body

end

end Page

end TemplateEngine.Render
