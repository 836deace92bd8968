/-!
The arguments of the program. Options may stand before or behind the command; behind the command
they win.
-/

namespace TemplateEngine.CommandLine

inductive Command where
  | tokenize (json : Bool)
  | compile (debug : Bool)
  | render (context : Option String)
  | check
  deriving Repr, DecidableEq

inductive Topic where
  | program
  | tokenize
  | compile
  | render
  | check
  | help
  deriving Repr, DecidableEq

def Topic.ofName? : String → Option Topic
  | "tokenize" => some tokenize
  | "compile" => some compile
  | "render" => some render
  | "check" => some check
  | "help" => some help
  | _ => none

inductive Request where
  | run (config : Option String) (keepComments : Bool) (command : Command) (path : String)
  | help (topic : Topic)
  | version
  | misuse
  deriving Repr, DecidableEq

structure Global where
  config : Option String := none
  noComments : Bool := false
  deriving Repr, DecidableEq

/-- The options of the program as far as both places give them; those of `inner` win. -/
def Global.merge (outer inner : Global) : Global where
  config := inner.config.or outer.config
  noComments := inner.noComments || outer.noComments

structure Local where
  path : Option String := none
  flag : Bool := false
  context : Option String := none
  shared : Global := {}
  deriving Repr, DecidableEq

/-- Whether an argument cannot be a value, because it looks like an option. -/
def isOption (arg : String) : Bool :=
  match arg.toList with
  | '-' :: _ :: _ => true
  | _ => false

def attached? (name arg : String) : Option String :=
  let head := (name ++ "=").toList
  if head.isPrefixOf arg.toList then some (String.ofList (arg.toList.drop head.length)) else none

/-- Reads an option that takes a value: its value and the arguments behind it, or nothing if the
first argument is another one. The value is missing if an option or nothing follows. -/
def valueOption? (name arg : String) (rest : List String) : Option (Option String × List String) :=
  match attached? name arg with
  | some value => some (some value, rest)
  | none =>
    if arg = name then
      match rest with
      | value :: rest => if isOption value then some (none, rest) else some (some value, rest)
      | [] => some (none, [])
    else none

def Topic.flag? : Topic → Option String
  | .tokenize => some "--json"
  | .compile => some "--debug"
  | _ => none

def Topic.takesContext : Topic → Bool
  | .render => true
  | _ => false

def finishCommand (topic : Topic) (outer : Global) (read : Local) : Request :=
  let shared := outer.merge read.shared
  match read.path with
  | none => .misuse
  | some path =>
    let run (command : Command) : Request := .run shared.config (!shared.noComments) command path
    match topic with
    | .tokenize => run (.tokenize read.flag)
    | .compile => run (.compile read.flag)
    | .render => run (.render read.context)
    | .check => run .check
    | .help | .program => .misuse

def Local.withPath (path : String) (read : Local) : Option Local :=
  if read.path.isSome then none else some { read with path := some path }

/-- Reads the arguments behind a command, at most `steps` of them; behind `--` none is an option. -/
def readCommand (topic : Topic) (outer : Global) : Nat → Bool → Local → List String → Request
  | 0, _, _, _ => .misuse
  | _ + 1, _, read, [] => finishCommand topic outer read
  | steps + 1, plain, read, arg :: rest =>
    if plain || !isOption arg then
      match read.withPath arg with
      | some read => readCommand topic outer steps plain read rest
      | none => .misuse
    else if arg = "--" then readCommand topic outer steps true read rest
    else if arg = "--help" || "-h".toList.isPrefixOf arg.toList then .help topic
    else if arg = "--no-comments" then
      if read.shared.noComments then .misuse
      else
        let shared := { read.shared with noComments := true }
        readCommand topic outer steps plain { read with shared := shared } rest
    else if some arg = topic.flag? then
      if read.flag then .misuse
      else readCommand topic outer steps plain { read with flag := true } rest
    else
      match valueOption? "--config" arg rest with
      | some (some value, rest) =>
        if read.shared.config.isSome then .misuse
        else
          let shared := { read.shared with config := some value }
          readCommand topic outer steps plain { read with shared := shared } rest
      | some (none, _) => .misuse
      | none =>
        match if topic.takesContext then valueOption? "--context" arg rest else none with
        | some (some value, rest) =>
          if read.context.isSome then .misuse
          else readCommand topic outer steps plain { read with context := some value } rest
        | _ => .misuse

def readHelp : List String → Request
  | [] => .help .program
  | [name] =>
    match Topic.ofName? name with
    | some topic => .help topic
    | none => .misuse
  | _ => .misuse

/-- Reads the arguments in front of the command, at most `steps` of them. -/
def readProgram : Nat → Global → List String → Request
  | 0, _, _ => .misuse
  | _ + 1, _, [] => .misuse
  | steps + 1, shared, arg :: rest =>
    match Topic.ofName? arg with
    | some .help => readHelp rest
    | some topic => readCommand topic shared (rest.length + 1) false {} rest
    | none =>
      if arg = "--help" || "-h".toList.isPrefixOf arg.toList then .help .program
      else if arg = "--version" || "-V".toList.isPrefixOf arg.toList then .version
      else if arg = "--no-comments" then
        if shared.noComments then .misuse
        else readProgram steps { shared with noComments := true } rest
      else
        match valueOption? "--config" arg rest with
        | some (some value, rest) =>
          if shared.config.isSome then .misuse
          else readProgram steps { shared with config := some value } rest
        | _ => .misuse

def request (args : List String) : Request :=
  readProgram (args.length + 1) {} args

end TemplateEngine.CommandLine
