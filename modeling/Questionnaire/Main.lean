import Questionnaire.CommandLine.Run

/-!
# The command line program

Commands run on the files of the machine.
-/

namespace Questionnaire

/-- Runs an action on a file, and says whether it succeeds. -/
def attempt (action : IO Unit) : IO Bool := do
  try
    action
    return true
  catch _ => return false

/-- The files of the machine. -/
def machineFiles : FileStore IO where
  createDirectory path := attempt (if path = "" then pure () else IO.FS.createDirAll path)
  writeFile path text := attempt (IO.FS.writeFile path text)
  readFile path := do
    try
      return some (← IO.FS.readFile path)
    catch _ => return none

/-- How the program is called. -/
def usage : String :=
  "Assemble and export study surveys, rules and message configs\n\n" ++
  "Usage: study-builder [-v] <command> [options]\n\n" ++
  "Commands:\n" ++
  "  export --study <bundle.json> [--out <DIR>] [--pretty]\n" ++
  "  check --survey <survey.json> [--deep]\n" ++
  "  rekey --survey <survey.json> --from <KEY> --to <KEY>\n" ++
  "        [--ignore-references] [--out <survey.json>] [--pretty]\n" ++
  "  schema --kind <survey|expression|study-rules|study-bundle>\n"

end Questionnaire

open Questionnaire

/-- Runs the command that the arguments ask for. -/
def main (arguments : List String) : IO UInt32 := do
  match Command.ofArguments arguments with
  | .error .shown =>
    IO.print usage
    return 0
  | .error .misused =>
    IO.eprint usage
    return 2
  | .ok command =>
    let outcome ← command.run machineFiles
    IO.print outcome.output
    if outcome.succeeded then
      return 0
    else
      IO.eprintln ("Error: " ++ outcome.message)
      return 1
