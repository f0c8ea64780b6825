/-!
# Arguments of the command

The command is called as `[--log] TASK [--log] [--json] [FILE]`, where the task comes first among
what is no flag, `--json` belongs to one task only, and after `--` every argument names a file. Each
flag may stand once before the task and once after it. `--version` before the task asks for nothing
else. Arguments are read from left to right, and the first that does not fit ends the reading.
-/

namespace Featherweight.Command

/-- What is to be done with a program. -/
inductive Task where
  | tokenize (json : Bool)
  | parse
  | evaluate
  | run
  deriving DecidableEq, Repr

/-- A task, the file that holds the program, and whether a log is kept. -/
structure Job where
  task : Task
  file : Option String
  log : Bool
  deriving DecidableEq, Repr

/-- What a call of the command asks for. -/
inductive Request where
  | usage
  | version
  | job (job : Job)
  deriving DecidableEq, Repr

/-- The task of that name. -/
def Task.ofName? : String → Option Task
  | "tokenize" => some (.tokenize false)
  | "parse"    => some .parse
  | "evaluate" => some .evaluate
  | "run"      => some .run
  | _          => none

/-- The job with a file, if it has none yet and the name is not empty. -/
def Job.withFile? (job : Job) (file : String) : Option Job :=
  if file = "" then none
  else match job.file with
    | none   => some { job with file := some file }
    | some _ => none

/-- Read the arguments after the task. `logSeen` tells whether `--log` stood among them. -/
def taskArguments (job : Job) (logSeen : Bool) : List String → Option Job
  | [] => some { job with log := job.log || logSeen }
  | "--" :: files => do
    let job ← files.foldlM Job.withFile? job
    return { job with log := job.log || logSeen }
  | "--log" :: rest => if logSeen then none else taskArguments job true rest
  | "--json" :: rest =>
    match job.task with
    | .tokenize false => taskArguments { job with task := .tokenize true } logSeen rest
    | _               => none
  | arg :: rest =>
    if arg.startsWith "-" && arg != "-" then none
    else match job.withFile? arg with
      | some job => taskArguments job logSeen rest
      | none     => none

/-- Read the arguments of the command. `log` tells whether `--log` stood before them. -/
def arguments (log : Bool) : List String → Request
  | [] => .usage
  | "--log" :: rest => if log then .usage else arguments true rest
  | arg :: rest =>
    if arg = "--version" || arg.startsWith "-V" then .version
    else match Task.ofName? arg with
      | none      => .usage
      | some task =>
        match taskArguments ⟨task, none, log⟩ false rest with
        | some job => .job job
        | none     => .usage

/-- What a call with these arguments asks for. -/
def Request.ofArguments (args : List String) : Request := arguments false args

end Featherweight.Command
