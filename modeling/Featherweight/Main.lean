import Featherweight.Command.Response

/-!
# The command

Reads the arguments and the file, and writes the answer.
-/

namespace Featherweight.Command

/-- The reason behind a failed attempt to read a file. -/
def FileFault.ofError : IO.Error → FileFault
  | .noFileOrDirectory _ _ _        => .notFound
  | .inappropriateType (some _) _ _ => .notDirectory
  | .inappropriateType none _ _     => .isDirectory
  | e                               => .other (toString e)

/-- The bytes of a file, or why they cannot be read. -/
def readFile (name : String) : IO (Except FileFault ByteArray) := do
  try return .ok (← IO.FS.readBinFile name)
  catch e => return .error (.ofError e)

/-- Answer a request. -/
def answer (request : Request) : IO Response := do
  if request.log then
    try IO.FS.writeBinFile logFile logOpening
    catch e => return .noLog (.ofError e)
  match request with
  | .job ⟨_, some name, _⟩ =>
    let contents ← readFile name
    return request.respond fun _ => contents
  | _ => return request.respond fun _ => .error .notFound

end Featherweight.Command

/-- The command. -/
def main (args : List String) : IO UInt32 := do
  let response ← Featherweight.Command.answer (.ofArguments args)
  (← IO.getStdout).write response.stdout
  (← IO.getStderr).putStr response.stderr
  return response.exit.toUInt32
