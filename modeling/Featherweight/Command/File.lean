/-!
# Files

Reading a file gives its bytes or fails for one of a few reasons. `Directory` is a directory whose
whole contents are known: `Directory.read` resolves a path in it step by step as an operating system
does, which bounds the length of a path and of its steps. Nothing is known to exist around the
directory.
-/

namespace Featherweight.Command

/-- Why a file cannot be read. -/
inductive FileFault where
  | notFound
  | notDirectory
  | isDirectory
  | nameTooLong
  | other (text : String)
  deriving DecidableEq, Repr

/-- The wording of a fault. -/
def FileFault.message : FileFault → String
  | notFound     => "No such file or directory (os error 2)"
  | notDirectory => "Not a directory (os error 20)"
  | isDirectory  => "Is a directory (os error 21)"
  | nameTooLong  => "File name too long (os error 36)"
  | other text   => text

/-- What a path leads to. -/
inductive Entry where
  | file (bytes : ByteArray)
  | directory

/-- The files and directories in a directory, with their paths from it. -/
abbrev Directory := List (List String × Entry)

namespace Directory

/-- What lies at a path without detours. A path that leads to something passes through directories
only. -/
def entry? (d : Directory) (path : List String) : Option Entry :=
  match d.find? (·.1 = path) with
  | some (_, entry) => some entry
  | none => if path = [] || d.any (path.isPrefixOf ·.1) then some .directory else none

/-- The most bytes a step of a path has. -/
def maxStep : Nat := 255

/-- The most bytes a path has. -/
def maxPath : Nat := 4095

/-- Walk from `here` along the steps of a path. Outside of the directory, where `here` is none, only
steps outward lead anywhere. -/
def walk (d : Directory) : Option (List String) → List String → Except FileFault Entry
  | none, []         => .ok .directory
  | none, s :: steps =>
    if s ∈ ["", ".", ".."] then walk d none steps
    else if maxStep < s.utf8ByteSize then .error .nameTooLong
    else .error .notFound
  | some here, steps =>
    match d.entry? here, steps with
    | none, _                   => .error .notFound
    | some entry, []            => .ok entry
    | some (.file _), _ :: _    => .error .notDirectory
    | some .directory, s :: steps =>
      if s ∈ ["", "."] then walk d (some here) steps
      else if s = ".." then walk d (if here = [] then none else some here.dropLast) steps
      else if maxStep < s.utf8ByteSize then .error .nameTooLong
      else walk d (some (here ++ [s])) steps
termination_by _ steps => steps.length

/-- The bytes of the file that `path` leads to. -/
def read (d : Directory) (path : String) : Except FileFault ByteArray := do
  if maxPath < path.utf8ByteSize then throw .nameTooLong
  match ← d.walk (if path.startsWith "/" then none else some []) (path.splitOn "/") with
  | .file bytes => return bytes
  | .directory  => throw .isDirectory

/-- The directory with `bytes` as the contents of the file `name`, which a directory of that name
prevents. -/
def write (d : Directory) (name : String) (bytes : ByteArray) : Except FileFault Directory :=
  match d.entry? [name] with
  | some .directory => .error .isDirectory
  | _               => .ok (([name], .file bytes) :: d.filter (·.1 ≠ [name]))

end Directory

end Featherweight.Command
