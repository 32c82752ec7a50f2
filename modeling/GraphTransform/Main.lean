import GraphTransform.Command.Processing

/-!
# The command

Lowers the rules that files declare and prints a report on each. Failures go to the standard error
output, and the exit status tells whether there was one.
-/

namespace GraphTransform.Command

/-- The text that an open input holds. What cannot be read once it is open, as a directory, counts
as the empty text, which is malformed. So do bytes that are not UTF-8, wherever they stand. -/
def readAll (bytes : IO ByteArray) : IO String := do
  try
    return (String.fromUTF8? (← bytes)).getD ""
  catch _ =>
    return ""

/-- The text of a file, if it can be opened. -/
def readText (file : String) : IO (Option String) := do
  if file = "-" then
    let input ← IO.getStdin
    return some (← readAll input.readBinToEnd)
  else
    try
      let handle ← IO.FS.Handle.mk file .read
      return some (← readAll handle.readBinToEnd)
    catch _ =>
      return none

/-- Process files in order and print what is to be printed, up to the first failure, which is
reported in its technical form. -/
def runFiles (o : Options) : List String → IO UInt32
  | [] => return 0
  | file :: rest => do
    let text ← readText file
    let process := run o (sources (fun _ => text) (text.getD "") [file])
    for output in process.trace do
      match output.printed? with
      | some text => IO.print text
      | none => pure ()
    match process.result with
    | .ok () => runFiles o rest
    | .error failure => do
      IO.eprintln s!"Error: {failure.debugText}"
      return 1

end GraphTransform.Command

open GraphTransform.Command in
/-- Process the files that the arguments name. -/
def main (arguments : List String) : IO UInt32 := do
  match Options.ofArguments arguments with
  | .ok o => runFiles o o.files
  | .error .help => do
    IO.println UsageError.help.message
    return 0
  | .error e => do
    IO.eprintln s!"error: {e.message}"
    return 2
