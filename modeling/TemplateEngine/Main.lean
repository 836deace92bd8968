import TemplateEngine.CommandLine

/-!
The program's entry: it reads the files that a run asks for, and prints what the run gives.
-/

namespace TemplateEngine

open CommandLine

def pathsOf (args : List String) : List String :=
  match request args with
  | .run config _ command path =>
    let context :=
      match command with
      | .render context => context.toList
      | _ => []
    config.toList ++ context ++ [path]
  | _ => []

def loadFile (path : String) : IO File := do
  if path.isEmpty then return .missing
  else
    try
      return .text (← IO.FS.readFile path)
    catch
      | .noFileOrDirectory _ _ _ => return .missing
      | e => return .unreadable (toString e)

end TemplateEngine

open TemplateEngine CommandLine

def main (args : List String) : IO UInt32 := do
  let loaded ← (pathsOf args).mapM fun path => do
    let file ← loadFile path
    return (path, file)
  match run (fun path => (loaded.lookup path).getD .missing) args with
  | .ok printed =>
    (← IO.getStdout).putStr printed.output
    (← IO.getStderr).putStr printed.notes
    return 0
  | .error failure =>
    (← IO.getStderr).putStr (failure.display ++ "\n")
    return UInt32.ofNat failure.code
