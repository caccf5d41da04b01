/-!
# Files

The command reads and writes files through a few operations, which are given from outside.  A
directory is made, where those above it may not exist yet, by trying the path and, as long as
something above it is not found, the paths of the directories above it.
-/

namespace LangCheck.Command

/-- Why an operation on files failed. -/
inductive FileError where
  | notFound
  | permissionDenied
  | alreadyExists
  | notADirectory
  | isADirectory
  | nameTooLong
  /-- The content is no text. -/
  | invalidText
  /-- Another reason, in words. -/
  | other (text : String)
deriving DecidableEq, Repr, Inhabited

/-- What a file error says. -/
def FileError.message : FileError → String
  | notFound => "No such file or directory (os error 2)"
  | permissionDenied => "Permission denied (os error 13)"
  | alreadyExists => "File exists (os error 17)"
  | notADirectory => "Not a directory (os error 20)"
  | isADirectory => "Is a directory (os error 21)"
  | nameTooLong => "File name too long (os error 36)"
  | invalidText => "stream did not contain valid UTF-8"
  | other text => text

/-! ## Paths -/

/-- The path of a file in a directory. -/
def joinPath (dir name : String) : String :=
  if dir.toList.getLast? = some '/' then dir ++ name else dir ++ "/" ++ name

/-- Whether a part of a path stays in the directory that the parts before it lead to. -/
def isStay (part : String) : Bool := part = "" ∨ part = "."

/-- The parts of a path that lead from one directory to another. -/
def stepsOf (path : String) : List String := (path.splitOn "/").filter (!isStay ·)

/-- The last name in a path, if the path ends with a name. -/
def fileName? (path : String) : Option String :=
  match (stepsOf path).getLast? with
  | none => none
  | some name => if name = ".." then none else some name

/-- The paths of the directories above the one that a path leads to, from the nearest to the
farthest. -/
def pathsAbove (path : String) : List String :=
  let steps := stepsOf path
  let root := if path.startsWith "/" then "/" else ""
  (List.range (steps.length - 1)).reverse.map fun n => root ++ "/".intercalate (steps.take (n + 1))

/-! ## The operations -/

/-- The operations on files that the command needs. -/
structure FileOps (m : Type → Type) where
  /-- Reads a text. -/
  read : String → m (Except FileError String)
  /-- Makes a directory in one that exists. -/
  makeDir : String → m (Except FileError Unit)
  /-- Whether a path leads to a directory. -/
  isDirectory : String → m Bool
  /-- Writes a text, in place of what was in the file. -/
  write : String → String → m (Except FileError Unit)

namespace FileOps

variable {m : Type → Type} [Monad m]

/-- Makes a directory, unless it exists. -/
def ensureDir (ops : FileOps m) (path : String) : m (Except FileError Unit) := do
  match ← ops.makeDir path with
  | .error .alreadyExists =>
    if ← ops.isDirectory path then return .ok () else return .error .alreadyExists
  | result => return result

/-- Makes a directory, unless it exists.  If something above it is not found, then the first of the
given directories, which are those above it, is made in the same way before it is tried again. -/
def ensureDirBelow (ops : FileOps m) (path : String) : List String → m (Except FileError Unit)
  | [] => ops.ensureDir path
  | parent :: above => do
    match ← ops.ensureDir path with
    | .error .notFound =>
      match ← ops.ensureDirBelow parent above with
      | .ok _ => ops.ensureDir path
      | .error e => return .error e
    | result => return result

/-- Makes a directory and all directories above it; what exists is left as it is. -/
def ensureDirs (ops : FileOps m) (path : String) : m (Except FileError Unit) :=
  ops.ensureDirBelow path (pathsAbove path)

end FileOps

end LangCheck.Command
