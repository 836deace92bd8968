import TemplateEngine.Document
import TemplateEngine.Script.Expr
import TemplateEngine.Script.Support
import TemplateEngine.Text.Lines

/-!
Compiling documents to JavaScript modules with one function that renders. Every loop makes a scope
object of its own, so that its names hide those outside.
-/

namespace TemplateEngine

structure Script where
  text : String
  indentation : Nat
  scope : Nat
  deriving Repr, DecidableEq

namespace Script

structure Options where
  debug : Bool := false
  autoescape : Bool := true
  deriving Repr, DecidableEq

def empty : Script :=
  ⟨"", 0, 0⟩

abbrev Writer := EStateM ScriptError Script

def raw (text : String) : Writer Unit :=
  modify fun script => { script with text := script.text ++ text }

def margin (indentation : Nat) : String :=
  String.ofList (List.replicate (2 * indentation) ' ')

def write (text : String) : Writer Unit := do
  let script ← get
  raw (margin script.indentation)
  raw text

def indent : Writer Unit :=
  modify fun script => { script with indentation := script.indentation + 1 }

def outdent : Writer Unit :=
  modify fun script => { script with indentation := script.indentation - 1 }

def enterScope : Writer Unit :=
  modify fun script => { script with scope := script.scope + 1 }

def leaveScope : Writer Unit :=
  modify fun script => { script with scope := script.scope - 1 }

def expr (e : Expr) : Writer String := do
  match ofExpr (← get).scope e with
  | .ok text => return text
  | .error e => throw e

/-- The block comment for an exposed comment. No line of it can end the block comment early. -/
def commentText (line : Nat) (text : String) : String :=
  let body := (Text.lines text.toList).map fun l => String.ofList (removeCommentEnds l) ++ "\n"
  "/* comment on line " ++ Nat.repr line ++ "\n" ++ String.join body ++ "*/\n"

/-- The first line of a loop's body: it makes the scope object of one iteration. -/
def scopeText (scope : Nat) (key : Option String) (target items : String) : String :=
  let keyText :=
    match key with
    | some key => literal key ++ ": key, "
    | none => ""
  "const " ++ scopeName (scope + 1) ++ " = Object.assign(Object.create(" ++ scopeName scope ++
    "), \x7b " ++ keyText ++ literal target ++ ": value, loop: runtime.loop(i, " ++ items ++
    ".length) \x7d);\n"

mutual

def writeNode (options : Options) : Node → Writer Unit
  | .text _ text => write ("out += " ++ literal text ++ ";\n")
  | .print _ e => do
    let value ← expr e
    let flag := if options.autoescape then "true" else "false"
    write ("out += " ++ call "print" [value, flag] ++ ";\n")
  | .choice _ branches otherwise => do
    writeBranches options true branches
    writeOtherwise options otherwise
    outdent
    write "\x7d\n"
  | .loop _ key target iterable body otherwise => do
    let iterable ← expr iterable
    let scope := (← get).scope
    let items := "items" ++ Nat.repr (scope + 1)
    write "\x7b\n"
    indent
    write ("const " ++ items ++ " = " ++ call "iterate" [iterable] ++ ";\n")
    writeEmptyCase options items otherwise
    enterScope
    write ("for (const [i, [key, value]] of " ++ items ++ ".entries()) \x7b\n")
    indent
    write (scopeText scope key target items)
    writeNodes options body
    leaveScope
    outdent
    write "\x7d\n"
    outdent
    write "\x7d\n"
  | .block _ name body => do
    write ("// block " ++ name ++ "\n")
    writeNodes options body
    write ("// endblock " ++ name ++ "\n")
  | .comment line text exposed =>
    if options.debug && exposed then raw (commentText line text) else pure ()

def writeNodes (options : Options) : List Node → Writer Unit
  | [] => pure ()
  | node :: nodes => do
    writeNode options node
    writeNodes options nodes

/-- Writes the branches of a choice. All but the first continue the one before. -/
def writeBranches (options : Options) (isFirst : Bool) : List Branch → Writer Unit
  | [] => pure ()
  | .mk condition body :: branches => do
    let condition ← expr condition
    let head := "if (" ++ call "test" [condition] ++ ") \x7b\n"
    if isFirst then write head
    else
      outdent
      write ("\x7d else " ++ head)
    indent
    writeNodes options body
    writeBranches options false branches

def writeOtherwise (options : Options) : Option (List Node) → Writer Unit
  | none => pure ()
  | some body => do
    outdent
    write "\x7d else \x7b\n"
    indent
    writeNodes options body

def writeEmptyCase (options : Options) (items : String) : Option (List Node) → Writer Unit
  | none => pure ()
  | some body => do
    write ("if (" ++ items ++ ".length === 0) \x7b\n")
    indent
    writeNodes options body
    outdent
    write "\x7d\n"

end

def writeModule (options : Options) (document : Document) : Writer Unit := do
  raw support
  raw "\n\n"
  raw ("// " ++ singleLine document.name ++ "\n")
  write "export function render(context, runtime = stencil) \x7b\n"
  indent
  write "let out = '';\n"
  write "const ctx0 = context ?? \x7b\x7d;\n"
  writeNodes options document.nodes
  write "return out;\n"
  outdent
  write "\x7d\n"

def ofDocument (options : Options) (document : Document) : Except ScriptError String :=
  match writeModule options document empty with
  | .ok _ script => .ok script.text
  | .error e _ => .error e

end Script

end TemplateEngine
