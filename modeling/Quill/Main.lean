import Quill.Console

/-!
# The program

Reads the file or the lines that a command asks for and prints the report. Everything else is
`Quill.Console`.
-/

set_option autoImplicit false

namespace Quill.Console

/-- Prints a line where it belongs, at once. -/
def printLine (line : Line) : IO Unit :=
  match line.outlet with
  | .out => do
    let stdout ← IO.getStdout
    stdout.putStrLn line.text
    stdout.flush
  | .err => IO.eprintln line.text

/-- Reads a file. -/
def readContent (file : String) : IO Content := do
  try
    return contentOfBytes (← IO.FS.readBinFile file)
  catch problem =>
    match problem with
    | .noFileOrDirectory _ _ _ => return .error .missing
    | .inappropriateType _ code _ =>
      -- The code of the system comes with either sign.
      let notFolder := code == 20 || 0 - code == 20
      return .error (if notFolder then .notFolder else .isFolder)
    | other => return .error (.other (toString other))

/-- Reads and runs lines until the input ends. -/
partial def replLoop (input : IO.FS.Stream) (m : Machine) : IO Unit := do
  let text ← input.getLine
  if text.isEmpty then return ()
  let line := String.ofList (Text.stripEnding text.toList)
  let (shown, m) := replLine m line
  shown.forM printLine
  replLoop input m

/-- Prints a report and gives its exit code. -/
def printReport (report : Report) : IO UInt32 := do
  report.lines.forM printLine
  return report.code.toUInt32

/-- Reads what a command needs, and carries it out. -/
def runCommand (i : Invocation) : IO UInt32 := do
  match i.command, i.command.file? with
  | .repl, _ =>
    printLine greeting
    replLoop (← IO.getStdin) (newMachine i.verbosity)
    return 0
  | _, some file => printReport (perform i (← readContent file) [])
  | _, none => printReport (perform i (.ok "") [])

end Quill.Console

/-- The command line program. -/
def main (args : List String) : IO UInt32 :=
  match Quill.Console.invocation? args with
  | some i => Quill.Console.runCommand i
  | none => Quill.Console.printReport Quill.Console.usage
