import Featherweight.Command.Arguments
import Featherweight.Command.File
import Featherweight.Expr.Printer
import Featherweight.Session

/-!
# Answers of the command

Each task answers with what it writes and an exit status: 0 if all went well, 1 if the program could
not be read, 2 if the arguments do not fit, 65 if the text is no program, 70 if its run failed.
What a program printed before its run failed is kept.
-/

namespace Featherweight.Command

/-- What a call writes to its two outputs, and its exit status. -/
structure Response where
  exit : UInt8
  stdout : ByteArray
  stderr : String

namespace Response

/-- The exit status for a text that is no program. -/
def staticFailure : UInt8 := 65

/-- The exit status for a failed run. -/
def runFailure : UInt8 := 70

/-- Each text on a line of its own. -/
def lines (texts : List String) : String := String.join (texts.map (· ++ "\n"))

/-- All went well. -/
def success (stdout : ByteArray) : Response := ⟨0, stdout, ""⟩

/-- Something could not be done, and why. -/
def report (what why : String) : Response :=
  ⟨1, .empty, "Error: " ++ what ++ "\n\nCaused by:\n    " ++ why ++ "\n"⟩

/-- The arguments do not fit. -/
def usage : Response :=
  ⟨2, .empty, "Usage: fwjs [--log] tokenize|parse|evaluate|run [--json] [FILENAME]\n"⟩

/-- The name and the version of the command. -/
def version : Response := success "fwjs-interpreter 0.1.0\n".toUTF8

/-- No file was named. -/
def noInput : Response := success "No input filepath was provided. Exiting...\n".toUTF8

end Response

open Response

/-- List the tokens on the one output and the faults on the other. -/
def listTokens (json : Bool) (source : String) : Response :=
  let items  := scan source
  let tokens := items.filterMap fun | .ok t => some t | .error _ => none
  let faults := items.filterMap fun | .ok _ => none | .error e => some e
  { exit   := if faults = [] then 0 else staticFailure
    stdout := (lines (tokens.map fun t => if json then t.renderJson else t.render)).toUTF8
    stderr := lines (faults.map fun e => e.diagnostic.message) }

/-- Show the tree of a program. -/
def showTree (program : Expr) : Response := success (lines [program.render]).toUTF8

/-- Run a program, and show its value if that is wanted. -/
def runProgram (showValue : Bool) (program : Expr) : Response :=
  let session : Session (Except Halt Value) := do
    let program ← Session.load program
    Session.interpret program
  let (outcome, final) := session.run (.initial .unlimited)
  let printed := final.machine.sink.written
  match outcome with
  | .ok v    => success (if showValue then printed ++ (lines [v.render]).toUTF8 else printed)
  | .error h => ⟨runFailure, printed, lines [h.message]⟩

/-- Do something with the program that a text is. -/
def withProgram (act : Expr → Response) (source : String) : Response :=
  match Expr.ofSource source with
  | .ok program => act program
  | .error e    => ⟨staticFailure, .empty, lines [e.diagnostic.message]⟩

/-- The answer of a task on a text. -/
def Task.respond : Task → String → Response
  | tokenize json => listTokens json
  | parse         => withProgram showTree
  | evaluate      => withProgram (runProgram true)
  | run           => withProgram (runProgram false)

/-- The answer of a task on what reading the file `name` gave. -/
def Task.respondTo (task : Task) (name : String) : Except FileFault ByteArray → Response
  | .error .isDirectory =>
    report ("Failed to read file " ++ Text.Quoted.name name) FileFault.isDirectory.message
  | .error fault => report ("Failed to open file " ++ Text.Quoted.name name) fault.message
  | .ok bytes =>
    match Text.Utf8.decode bytes with
    | .ok source   => task.respond source
    | .error fault =>
      report ("File " ++ Text.Quoted.name name ++ " is not valid UTF-8")
        (Diagnostic.encoding fault).message

/-- The answer of a job, given what reading a file gives. -/
def Job.respond (job : Job) (read : String → Except FileFault ByteArray) : Response :=
  match job.file with
  | none      => noInput
  | some name => job.task.respondTo name (read name)

/-- The answer to a request, given what reading a file gives. -/
def Request.respond (request : Request) (read : String → Except FileFault ByteArray) : Response :=
  match request with
  | usage   => Response.usage
  | version => Response.version
  | job j   => j.respond read

/-! ### The log -/

/-- The file that a log is kept in. -/
def logFile : String := "fwjs.log"

/-- The line that a log begins with. -/
def logOpening : ByteArray := "[fwjs] - Log opened\n".toUTF8

/-- The log cannot be written. -/
def Response.noLog (fault : FileFault) : Response :=
  report ("Failed to create " ++ logFile) fault.message

/-- Does the request ask for a log? -/
def Request.log : Request → Bool
  | job j => j.log
  | _     => false

/-- The directory with the log that the request asks for. -/
def Request.prepare (request : Request) (d : Directory) : Except FileFault Directory :=
  if request.log then d.write logFile logOpening else .ok d

/-- The answer to a request in a directory. The log is opened before the program is read. -/
def Request.respondIn (request : Request) (d : Directory) : Response :=
  match request.prepare d with
  | .ok d        => request.respond d.read
  | .error fault => .noLog fault

end Featherweight.Command
