import XmlScript.CommandLine

/-!
# The program

Reads the files that a request names and prints the answer.
-/

namespace XmlScript

/-- The text of a file, if it can be read. -/
def fileText? (path : String) : IO (Option String) := do
  try
    return some (← IO.FS.readFile path)
  catch _ =>
    return none

/-- Prints what the program leaves behind and answers with its exit code. -/
def leave (outcome : CommandLine.Outcome) : IO UInt32 := do
  (← IO.getStdout).putStr outcome.output
  (← IO.getStderr).putStr outcome.errors
  return outcome.code.toUInt32

end XmlScript

open XmlScript in
def main (arguments : List String) : IO UInt32 := do
  match CommandLine.parse arguments with
  | .error stop => leave stop.outcome
  | .ok request =>
    let texts ← request.paths.mapM fun path => return (path, ← fileText? path)
    leave (CommandLine.run (fun path => (texts.lookup path).join) request)
