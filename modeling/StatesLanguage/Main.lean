import StatesLanguage.CommandLine.Run

/-!
# The program

Reads the files that the command line names, and shows its outcome.
-/

open StatesLanguage

/-- A file and its text, if it can be read. -/
def readFileOf (path : String) : IO (String × Option String) := do
  try
    let text ← IO.FS.readFile path
    return (path, some text)
  catch _ => return (path, none)

/-- Runs the command line. -/
def main (args : List String) : IO UInt32 := do
  let texts ← (CommandLine.filesOf args).mapM readFileOf
  let outcome := CommandLine.run (fun path => (texts.lookup path).join) args
  for message in outcome.messages do
    IO.eprintln message
  IO.print outcome.output
  return outcome.exitCode.toUInt32
