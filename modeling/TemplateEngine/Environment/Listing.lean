import TemplateEngine.Environment
import TemplateEngine.Text.Quoted

/-!
One-line listings of environments, for inspection.
-/

namespace TemplateEngine

open Text

def recordText (title : String) (fields : List (String × String)) : String :=
  title ++ " \x7b " ++ ", ".intercalate (fields.map fun field => field.1 ++ ": " ++ field.2) ++
    " \x7d"

def pairText (pair : String × String) : String :=
  "(" ++ quoted pair.1 ++ ", " ++ quoted pair.2 ++ ")"

def flagText (flag : Bool) : String :=
  if flag then "true" else "false"

def quotedList (texts : List String) : String :=
  bracketed (texts.map quoted)

def TagSet.listing (tags : TagSet) : String :=
  recordText "TagRegistry" [("tags", quotedList tags.names)]

def Lexer.Options.listing (options : Lexer.Options) : String :=
  recordText "LexerOptions"
    [("tag_comment", pairText options.comment), ("tag_block", pairText options.block),
      ("tag_variable", pairText options.print), ("whitespace_trim", quotedSingle options.trim),
      ("whitespace_line_trim", quotedSingle options.lineTrim),
      ("interpolation", pairText options.interpolation),
      ("operators", quotedList options.operators)]

def Environment.listing (env : Environment) : String :=
  let options :=
    recordText "EnvironmentOptions"
      [("debug", flagText env.debug), ("autoescape", flagText env.autoescape),
        ("strict_variables", flagText env.strict), ("lexer", env.lexerOptions.listing)]
  "Environment \x7b options: " ++ options ++ ", tags: " ++ env.tags.listing ++ ", extensions: " ++
    quotedList env.extensions ++ ", .. \x7d"

end TemplateEngine
