import LangCheck.Command.Arguments
import LangCheck.Command.Files
import LangCheck.Grammar.Program
import LangCheck.Report

/-!
# What the command does

The command reads a source file, reports what is wrong with it, and writes the reports that it is
asked for.  It stops at the first thing that goes wrong.
-/

namespace LangCheck.Command

/-- What the command leaves behind, apart from files. -/
structure Outcome where
  /-- The exit code. -/
  exit : UInt8
  /-- What is printed to the standard output. -/
  out : String
  /-- What is printed to the standard error. -/
  err : String
  /-- Whether the last line of the output still lacks the time that the analysis took. -/
  awaitsTime : Bool
deriving DecidableEq, Repr, Inhabited

/-- The success of a command that prints a text. -/
def Outcome.printed (out : String) : Outcome := ⟨0, out, "", false⟩

/-- The failure of a command with what it has printed. -/
def Outcome.failed (out err : String) : Outcome := ⟨1, out, err, false⟩

/-- What the command prints when it is asked for its version. -/
def versionText : String := "minilang 0.1.0\n"

/-- How the command is used. -/
def usageText : String := "Usage: minilang [OPTIONS] <FILE>\n"

/-- What the command prints when it is asked for help. -/
def helpText : String :=
  "Checks a MiniLang source file and reports its semantic errors\n\n" ++ usageText ++ "\n" ++
  "Arguments:\n" ++
  "  <FILE>  The source file to analyze\n\n" ++
  "Options:\n" ++
  "      --tokens <PATH>  Write the token list to this path\n" ++
  "      --out-dir <DIR>  Write every report into this directory\n" ++
  "  -h, --help           Print help\n" ++
  "  -V, --version        Print version\n"

/-- The names of the files in the directory of reports. -/
def tokensFile : String := "token_list.txt"

@[inherit_doc tokensFile] def errorsFile : String := "compiler_errors.txt"

@[inherit_doc tokensFile] def globalsFile : String := "global_variables.txt"

@[inherit_doc tokensFile] def functionsFile : String := "functions.txt"

/-- The message of an operation on a file that failed. -/
def fileMessage (verb path : String) (e : FileError) : String :=
  "Failed to " ++ verb ++ " `" ++ path ++ "`: " ++ e.message ++ "\n"

section

variable {m : Type → Type} [Monad m]

/-- Writes files, in order, until one fails, and returns the message of that failure. -/
def writeAll (ops : FileOps m) : List (String × String) → m (Option String)
  | [] => return none
  | (path, text) :: rest => do
    match ← ops.write path text with
    | .ok _ => writeAll ops rest
    | .error e => return some (fileMessage "write" path e)

/-- The given files of the directory of reports, with their paths; none if there is no directory. -/
def inOutDir (job : Job) (files : List (String × String)) : List (String × String) :=
  match job.outDir with
  | none => []
  | some dir => files.map fun (name, text) => (joinPath dir name, text)

/-- Writes files and ends with the given outcome; if one fails, that is the outcome instead, after
what the command has printed so far. -/
def concluding (ops : FileOps m) (files : List (String × String)) (printed : String)
    (outcome : Outcome) : m Outcome := do
  match ← writeAll ops files with
  | none => return outcome
  | some message => return .failed printed message

/-- Reports the analysis of a source that was read. -/
def reportAnalysis (ops : FileOps m) (job : Job) (a : Analysis) : m Outcome :=
  let found := Report.diagnostics a.diagnostics
  let files := inOutDir job [(errorsFile, found), (globalsFile, Report.globals a.globals),
    (functionsFile, Report.functions a.functions)]
  let outcome : Outcome :=
    if a.hasErrors then
      .failed (found ++ "Found " ++ toString a.diagnostics.length ++ " semantic errors in " ++
        job.file ++ "\n") ""
    else
      ⟨0, found ++ "No semantic errors: " ++ toString a.globals.length ++ " globals, " ++
        toString a.functions.length ++ " functions", "", true⟩
  concluding ops files found outcome

/-- Analyses a source that was read. -/
def analyseSource (ops : FileOps m) (job : Job) (source : String) : m Outcome := do
  let file := (fileName? job.file).getD interactiveFile
  let tokens := tokenize source file
  let listing := Token.listing tokens
  let listings := (job.tokens.toList.map fun path => (path, listing)) ++
    inOutDir job [(tokensFile, listing)]
  match ← writeAll ops listings with
  | some message => return .failed "" message
  | none =>
    match Program.ofTokens tokens file with
    | .ok p => reportAnalysis ops job p.analyse
    | .error e =>
      let shown := e.display source job.file
      concluding ops (inOutDir job [(errorsFile, e.message ++ "\n")]) shown (.failed shown "")

/-- Does what the command is asked to analyse. -/
def runJob (ops : FileOps m) (job : Job) : m Outcome := do
  match ← ops.read job.file with
  | .error e => return .failed "" (fileMessage "read" job.file e)
  | .ok source =>
    match job.outDir with
    | none => analyseSource ops job source
    | some dir =>
      match ← ops.ensureDirs dir with
      | .error e => return .failed "" (fileMessage "create" dir e)
      | .ok _ => analyseSource ops job source

/-- Runs the command. -/
def run (ops : FileOps m) (arguments : List String) : m Outcome :=
  match Request.ofArguments arguments with
  | .error e =>
    return ⟨2, "", "error: " ++ e.message ++ "\n\n" ++ usageText ++
      "\nFor more information, try '--help'.\n", false⟩
  | .ok .help => return .printed helpText
  | .ok .version => return .printed versionText
  | .ok (.analyse job) => runJob ops job

end

end LangCheck.Command
