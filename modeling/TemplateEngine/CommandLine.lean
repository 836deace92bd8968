import TemplateEngine.CommandLine.Help
import TemplateEngine.Environment.Config
import TemplateEngine.OneShot
import TemplateEngine.Text.Quoted

/-!
The program: it lists tokens, compiles, renders and checks templates that are read from files. Files
come from a function, so that a run is a value.
-/

namespace TemplateEngine.CommandLine

inductive File where
  | missing
  | unreadable (reason : String)
  | text (content : String)
  deriving Repr, DecidableEq

inductive Failure where
  | misuse
  | missing (path : String)
  | unreadable (path reason : String)
  | invalidConfig (path : String)
  | invalidContext (path : String)
  | rejected (e : EngineError)
  deriving Repr, DecidableEq

namespace Failure

def display : Failure → String
  | misuse => "Error: invalid arguments"
  | missing path => "Error: file not found: " ++ path
  | unreadable path reason => "Error: reading " ++ path ++ ": " ++ reason
  | invalidConfig path => "Error: invalid config " ++ path
  | invalidContext path => "Error: invalid context " ++ path
  | rejected e => "Error: " ++ e.display

def code : Failure → Nat
  | misuse => 2
  | _ => 1

end Failure

structure Printed where
  output : String := ""
  notes : String := ""
  deriving Repr, DecidableEq

def readFile (files : String → File) (path : String) : Except Failure String :=
  match files path with
  | .text content => .ok content
  | .missing => .error (.missing path)
  | .unreadable reason => .error (.unreadable path reason)

def loadOptions (files : String → File) : Option String → Except Failure Environment.Options
  | none => .ok {}
  | some path => do
    let text ← readFile files path
    match (Json.readWritten? text).bind Config.environment? with
    | some options => return options
    | none => throw (.invalidConfig path)

def loadContext (files : String → File) : Option String → Except Failure Json
  | none => .ok (.object [])
  | some path => do
    let text ← readFile files path
    match Json.read? text with
    | some context => return context
    | none => throw (.invalidContext path)

def alignRight (width : Nat) (text : String) : String :=
  String.ofList (List.replicate (width - text.length) ' ') ++ text

def alignLeft (width : Nat) (text : String) : String :=
  text ++ String.ofList (List.replicate (width - text.length) ' ')

def tokenLine (token : Token) : String :=
  alignRight 4 (Nat.repr token.line) ++ "  " ++ alignLeft 20 token.kind.title ++ " " ++
    Text.quoted token.value ++ "\n"

def tokenObject (token : Token) : String :=
  "  \x7b\n    \"kind\": " ++ Json.stringText token.kind.tag ++ ",\n    \"value\": " ++
    Json.stringText token.value ++ ",\n    \"line\": " ++ Nat.repr token.line ++ "\n  \x7d"

def tokenListing (json : Bool) (tokens : List Token) : String :=
  if json then "[\n" ++ ",\n".intercalate (tokens.map tokenObject) ++ "\n]\n"
  else String.join (tokens.map tokenLine)

def runCommand (files : String → File) (env : Environment) (command : Command) (path : String) :
    Except Failure Printed :=
  match command with
  | .tokenize json => do
    let code ← readFile files path
    let stream ← (env.tokenize ⟨path, code⟩).mapError .rejected
    return { output := tokenListing json stream.tokens }
  | .compile _ => do
    let code ← readFile files path
    let script ← (env.compileSource ⟨path, code⟩).mapError .rejected
    return { output := script }
  | .render context => do
    let context ← loadContext files context
    let code ← readFile files path
    let output ← (env.render ⟨path, code⟩ context).mapError .rejected
    return { output := output }
  | .check => do
    let code ← readFile files path
    let document ← (env.parseSource ⟨path, code⟩).mapError .rejected
    let _ ← (env.compile document).mapError .rejected
    let count := Nat.repr document.comments.length
    return { notes := "OK: " ++ path ++ " (" ++ count ++ " comments)\n" }

def environment (options : Environment.Options) (keepComments : Bool) :
    Except Failure Environment :=
  (if keepComments then Environment.withComments options
    else Environment.ofOptions options).mapError .rejected

def run (files : String → File) (args : List String) : Except Failure Printed :=
  match request args with
  | .misuse => .error .misuse
  | .version => .ok { output := "stencil " ++ OneShot.version ++ "\n" }
  | .help topic => .ok { output := topic.page }
  | .run config keepComments command path => do
    let options ← loadOptions files config
    let debug := options.debug || command == .compile true
    let env ← environment { options with debug := debug } keepComments
    runCommand files env command path

end TemplateEngine.CommandLine
