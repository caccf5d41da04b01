import LangCheck.Command.Elapsed
import LangCheck.Command.Run

/-!
# The command line

The command on the files of the machine that it runs on.
-/

namespace LangCheck.Command

/-- The number of an error.  Some operations of the machine report it as its negative. -/
def errorNumber (code : UInt32) : UInt32 := min code (0 - code)

/-- The reason of a failure that the machine reports. -/
def fileErrorOf : IO.Error → FileError
  | .noFileOrDirectory .. => .notFound
  | .permissionDenied .. => .permissionDenied
  | .alreadyExists .. => .alreadyExists
  | .inappropriateType _ code _ => if errorNumber code = 20 then .notADirectory else .isADirectory
  | .invalidArgument _ code details =>
    if errorNumber code = 36 then .nameTooLong else .other details
  | e => .other (toString e)

/-- Runs an action and returns the reason of its failure, if it fails. -/
def attempt {α : Type} (action : IO α) : IO (Except FileError α) := do
  try
    return .ok (← action)
  catch e =>
    return .error (fileErrorOf e)

/-- The operations on the files of the machine. -/
def machineFiles : FileOps IO where
  read path := do
    match ← attempt (IO.FS.readBinFile path) with
    | .error e => return .error e
    | .ok content =>
      match String.fromUTF8? content with
      | none => return .error .invalidText
      | some text => return .ok text
  makeDir path := attempt (IO.FS.createDir path)
  isDirectory path := do
    try
      (← IO.FS.realPath path).isDir
    catch _ =>
      return false
  write path text := attempt (IO.FS.writeFile path text)

end LangCheck.Command

open LangCheck.Command in
/-- Runs the command with the given arguments. -/
def main (arguments : List String) : IO UInt32 := do
  let start ← IO.monoNanosNow
  let outcome ← run machineFiles arguments
  IO.print outcome.out
  if outcome.awaitsTime then
    let stop ← IO.monoNanosNow
    IO.println (" (" ++ renderNanos (stop - start) ++ ")")
  IO.eprint outcome.err
  return outcome.exit.toUInt32
