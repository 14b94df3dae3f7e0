import Quill.Folder
import Quill.Listing.OfTree
import Quill.Script
import Quill.Session
import Quill.Text.Typed

/-!
# The console program

What the command line program prints: it runs a script file, lists the tokens or the syntax tree of
one, or reads lines and runs them one after another on the same machine. All of it is a function of
the arguments, the file and the lines; a report is a list of lines, each for one of two outlets.
-/

set_option autoImplicit false

namespace Quill.Console

/-- The version that the program tells. -/
def version : String := "0.1.0"

/-- Where a line is printed. -/
inductive Outlet
  | out | err
deriving DecidableEq, Repr

/-- A line and where it is printed. -/
structure Line where
  outlet : Outlet
  text : String
deriving DecidableEq, Repr

/-- What the program leaves: lines and an exit code. -/
structure Report where
  lines : List Line
  code : Nat := 0
deriving DecidableEq, Repr

/-- All that goes to an outlet. -/
def Report.at (r : Report) (outlet : Outlet) : String :=
  String.join ((r.lines.filter (·.outlet == outlet)).map (·.text ++ "\n"))

/-- A line for the ordinary outlet. -/
def out (text : String) : Line := ⟨.out, text⟩

/-- A line for the outlet of messages. -/
def err (text : String) : Line := ⟨.err, text⟩

/-! ## Messages -/

/-- A text between terminal codes. -/
def styled (code : Nat) (text : String) : String :=
  "\x1b[" ++ toString code ++ "m" ++ text ++ "\x1b[0m"

def bold (text : String) : String := styled 1 text

def red (text : String) : String := styled 31 text

def yellow (text : String) : String := styled 33 text

/-- The headline of a fault. -/
def errorMessage (message : String) : Line := err (bold (red "Error:") ++ " " ++ bold message)

/-- The headline of a warning. -/
def warningMessage (message : String) : Line :=
  err (bold (yellow "Warning:") ++ " " ++ bold message)

/-- A number with blanks in front up to a width. -/
def padded (width n : Nat) : String :=
  let digits := toString n
  String.ofList (List.replicate (width - digits.length) ' ') ++ digits

/-- One line of a source in a frame, if the source has it. -/
def frameLine (lines : List (List Char)) (n : Nat) : List Line :=
  match lines[n - 1]? with
  | some text => [err (padded 3 n ++ " │ " ++ String.ofList (text.filter (· != '\r')))]
  | none => []

/-- The line of a fault with the line before it. Line `0` is none and has no frame. -/
def codeFrame (file source : String) (line : Nat) : List Line :=
  if line = 0 then []
  else
    let lines := Text.lines source.toList
    let before := if line = 1 then [] else frameLine lines (line - 1)
    err ("    ╭─[" ++ file ++ "]") :: (before ++ frameLine lines line) ++ [err "────╯"]

/-- A diagnostic with its place in the source. -/
def showDiagnostic (file source : String) (d : Diagnostic) : List Line :=
  errorMessage ("[" ++ d.code.label ++ "] " ++ d.message) ::
    codeFrame file source d.position.line

/-- Diagnostics, one after the other. -/
def showDiagnostics (file source : String) (ds : List Diagnostic) : List Line :=
  ds.flatMap (showDiagnostic file source)

/-- A failure with its place in the source. -/
def showFailure (file source : String) (f : Failure) : List Line :=
  errorMessage f.message :: codeFrame file source f.line

/-! ## Listings -/

/-- The kind of a token, with what it carries. -/
def describeKind (kind : TokenKind) : String :=
  let carrying (text : String) := kind.label ++ "(" ++ text ++ ")"
  match kind with
  | .number n => carrying n.debugText
  | .string s | .ident s | .error s => carrying (Text.quoted s)
  | .bool b => carrying (if b then "true" else "false")
  | _ => kind.label

/-- A token, with the slice it was read from. -/
def describeToken (t : Token) : String :=
  match t.kind with
  | .eof => "Eof"
  | kind => describeKind kind ++ " (" ++ t.text ++ ")"

/-- The tokens, with the number of their line where it changes. -/
def tokenLines (line : Nat) : List Token → List Line
  | [] => []
  | t :: rest =>
    let margin := if t.line = line then "     │ " else padded 4 t.line ++ " │ "
    out (margin ++ describeToken t) :: tokenLines t.line rest

/-- All tokens in a frame. -/
def showTokens (tokens : List Token) : List Line :=
  out "     ╭─[Tokens]" :: tokenLines 0 tokens ++ [out "─────╯"]

/-- Every statement spread out. -/
def showTree (statements : List Stmt) : List Line :=
  statements.flatMap fun stmt => stmt.listing.spreadLines.map out

/-! ## Running -/

/-- A machine whose messages are all printed. -/
def newMachine (verbosity : Verbosity) : Machine := { Machine.new with sinks := .all, verbosity }

/-- A line of the interpreter's own report. -/
def reportLine (level : Level) (text : String) : Line := err ("[" ++ level.label ++ "] " ++ text)

/-- Where an event is printed: messages logged by a script are its output, all else is not. -/
def showEvent : Event → Line
  | .sunk .log line => out line
  | .sunk _ line => err line
  | .report level line => reportLine level line

/-- All that left a machine, in order. -/
def showEvents (m : Machine) : List Line := m.events.toList.map showEvent

/-- Goes on with the text of a file. A file without text is worth a warning. -/
def withSource (file : String) (content : Content) (next : String → Report) : Report :=
  match content with
  | .error problem =>
    ⟨[errorMessage ("Problem reading " ++ file ++ ": " ++ problem.message)], 1⟩
  | .ok source =>
    let report := next source
    if (Text.trim source.toList).isEmpty then
      { report with lines := warningMessage "File is empty" :: report.lines }
    else report

/-- Runs a script file. -/
def runFile (verbosity : Verbosity) (file : String) (mode : Option String) (source : String) :
    Report :=
  let told := Script.ofSource source
  let script := match mode with
    | some text => { told with mode := ScriptMode.ofText text.toList }
    | none => told
  let opening :=
    if verbosity.shows .debug then
      [reportLine .debug ("running '" ++ script.name ++ "' in " ++ script.mode.label ++ " mode")]
    else []
  match (newMachine verbosity).exec smallHost source with
  | (.value _, m) => ⟨opening ++ showEvents m, 0⟩
  | (.failed f, m) => ⟨opening ++ showEvents m ++ showFailure file source f, 1⟩
  | (.rejected ds, _) => ⟨opening ++ showDiagnostics file source ds, 1⟩
  | (.outOfFuel, m) => ⟨opening ++ showEvents m, 1⟩

/-- Lists the tokens of a file. -/
def tokensFile (file source : String) : Report :=
  let lexed := tokenize source
  ⟨showTokens lexed.tokens ++ showDiagnostics file source lexed.diagnostics,
    if lexed.diagnostics.isEmpty then 0 else 1⟩

/-- Lists the syntax tree of a file, as far as it has one. -/
def treeFile (file source : String) : Report :=
  let lexed := tokenize source
  let parsed := Syntax.parse lexed.tokens
  let faults := lexed.diagnostics ++ parsed.diagnostics
  ⟨showTree parsed.statements ++ showDiagnostics file source faults,
    if faults.isEmpty then 0 else 1⟩

/-! ## Lines one after another -/

/-- What is printed before the first line is read. -/
def greeting : Line := out ("Quill (" ++ version ++ ")")

/-- Runs one line on a machine and shows its value, unless that is null. Blank lines are skipped. -/
def replLine (m : Machine) (keys : String) : List Line × Machine :=
  let line := String.ofList (Text.typed keys.toList)
  if (Text.trim line.toList).isEmpty then ([], m)
  else
    let (outcome, m) := m.exec smallHost line
    let answer := match outcome with
      | .value .null => []
      | .value v => [out v.toText]
      | .failed f => showFailure "REPL" line f
      | .rejected ds => showDiagnostics "REPL" line ds
      | .outOfFuel => []
    (showEvents m ++ answer, m.clearEvents)

/-- Runs lines on a machine. -/
def replLines (m : Machine) : List String → List Line
  | [] => []
  | line :: rest =>
    let (shown, m) := replLine m line
    shown ++ replLines m rest

/-! ## The command line -/

/-- What the program is asked to do. -/
inductive Command
  | version
  | run (file : String) (mode : Option String)
  | tokens (file : String)
  | tree (file : String)
  | repl
deriving DecidableEq, Repr

/-- A command, and how much is reported. -/
structure Invocation where
  command : Command
  verbosity : Verbosity
deriving DecidableEq, Repr

/-- How much is reported when more is asked for so often. -/
def verbosityOf : Nat → Verbosity
  | 0 => .off
  | 1 => .debug
  | _ => .trace

/-- How often an argument asks for more to be reported, as in `-vv`. -/
def verboseCount? (arg : String) : Option Nat :=
  if arg = "--verbose" then some 1
  else
    match arg.toList with
    | '-' :: 'v' :: more => if more.all (· == 'v') then some (more.length + 1) else none
    | _ => none

/-- The argument asks for the version. -/
def asksVersion (arg : String) : Bool :=
  arg == "--version" ||
    match arg.toList with
    | '-' :: letters => (letters.dropWhile (· == 'v')).head? == some 'V'
    | _ => false

/-- The argument is no option. A dash alone is none. -/
def isOperand (arg : String) : Bool := arg == "-" || !arg.startsWith "-"

/-- The value in `--mode=value`. -/
def modeValue? (arg : String) : Option String :=
  (Text.after? "--mode=".toList arg.toList).map String.ofList

/-- What is told after the name of a command. -/
structure Operands where
  files : List String := []
  mode : Option String := none
  verbose : Option Nat := none

/-- Takes a mode, which may be told once. -/
def Operands.setMode? (o : Operands) (mode : String) : Option Operands :=
  if o.mode.isNone then some { o with mode := some mode } else none

/-- Reads what is told after the name of a command; `none` for an option that is not known. -/
def readOperands (o : Operands) : List String → Option Operands
  | [] => some o
  | ["--mode"] => none
  | "--mode" :: mode :: rest =>
    if isOperand mode then (o.setMode? mode).bind (readOperands · rest) else none
  | arg :: rest =>
    if arg = "--" then some { o with files := o.files ++ rest }
    else
      match verboseCount? arg, modeValue? arg with
      | some n, _ => readOperands { o with verbose := some (o.verbose.getD 0 + n) } rest
      | none, some mode => (o.setMode? mode).bind (readOperands · rest)
      | none, none =>
        if isOperand arg then readOperands { o with files := o.files ++ [arg] } rest else none

/-- The command with a name and operands. -/
def commandOf? (name : String) (o : Operands) : Option Command :=
  match name, o.files, o.mode with
  | _, [""], _ => none
  | "run", [file], mode => some (.run file mode)
  | "tokens", [file], none => some (.tokens file)
  | "ast", [file], none => some (.tree file)
  | _, _, _ => none

/-- The invocation that arguments spell, when more was asked for `verbose` times before them. What
is asked for after the name of a command replaces what was asked for before it. -/
def invocationAfter? (verbose : Nat) : List String → Option Invocation
  | [] => some ⟨.repl, verbosityOf verbose⟩
  | arg :: rest =>
    match verboseCount? arg with
    | some n => invocationAfter? (verbose + n) rest
    | none =>
      if asksVersion arg then some ⟨.version, verbosityOf verbose⟩
      else do
        let o ← readOperands {} rest
        let command ← commandOf? arg o
        return ⟨command, verbosityOf (o.verbose.getD verbose)⟩

/-- The invocation that arguments spell. -/
def invocation? (args : List String) : Option Invocation := invocationAfter? 0 args

/-- The file that a command reads. -/
def Command.file? : Command → Option String
  | .run file _ | .tokens file | .tree file => some file
  | .version | .repl => none

/-- What the program leaves for a command, given the content of its file and the lines it reads. -/
def perform (i : Invocation) (content : Content) (lines : List String) : Report :=
  match i.command with
  | .version => ⟨[out ("quill " ++ version)], 0⟩
  | .run file mode => withSource file content (runFile i.verbosity file mode)
  | .tokens file => withSource file content (tokensFile file)
  | .tree file => withSource file content (treeFile file)
  | .repl => ⟨greeting :: replLines (newMachine i.verbosity) lines, 0⟩

/-- What the program leaves for arguments that spell nothing. -/
def usage : Report :=
  ⟨[err "usage: quill [-v] [run FILE [--mode MODE] | tokens FILE | ast FILE | --version]"], 2⟩

end Quill.Console
