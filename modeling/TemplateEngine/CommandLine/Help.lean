import TemplateEngine.CommandLine.Arguments

/-!
The help texts of the program.
-/

namespace TemplateEngine.CommandLine

def Topic.summary : Topic → String
  | program => "Stencil template compiler"
  | tokenize => "Print the token stream of a template"
  | compile => "Compile a template to a JavaScript module"
  | render => "Render a template against a JSON context"
  | check => "Check a template for errors without generating output"
  | help => "Print this message or the help of the given subcommand(s)"

def Topic.name : Topic → String
  | program => "stencil"
  | tokenize => "tokenize"
  | compile => "compile"
  | render => "render"
  | check => "check"
  | help => "help"

def Topic.ownOption : Topic → List (String × String)
  | tokenize => [("--json", "Print tokens as JSON")]
  | compile => [("--debug", "Keep exposed comments in the output")]
  | render => [("--context <CONTEXT>", "Context as a JSON file")]
  | _ => []

def Topic.options (topic : Topic) : List (String × String) :=
  [("    --config <CONFIG>", "Environment options as a JSON file")] ++
    topic.ownOption.map (fun option => ("    " ++ option.1, option.2)) ++
    [("    --no-comments", "Use the base lexer, which drops \x60\x7b# #\x7d\x60 comments"),
      ("-h, --help", "Print help")] ++
    (if topic = program then [("-V, --version", "Print version")] else [])

def columns (rows : List (String × String)) : String :=
  let width := rows.foldl (fun n row => max n row.1.length) 0
  String.join <| rows.map fun row =>
    let gap := String.ofList (List.replicate (width - row.1.length + 2) ' ')
    "  " ++ row.1 ++ gap ++ row.2 ++ "\n"

def Topic.page (topic : Topic) : String :=
  match topic with
  | .program =>
    topic.summary ++ "\n\nUsage: stencil [OPTIONS] <COMMAND>\n\nCommands:\n" ++
      columns (([.tokenize, .compile, .render, .check, .help] : List Topic).map fun t =>
        (t.name, t.summary)) ++
      "\nOptions:\n" ++ columns topic.options
  | .help => topic.summary ++ "\n\nUsage: stencil help [COMMAND]...\n"
  | topic =>
    topic.summary ++ "\n\nUsage: stencil " ++ topic.name ++
      " [OPTIONS] <PATH>\n\nArguments:\n  <PATH>  Input template\n\nOptions:\n" ++
      columns topic.options

end TemplateEngine.CommandLine
