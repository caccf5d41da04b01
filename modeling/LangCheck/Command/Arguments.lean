/-!
# The arguments of the command

The command takes one file, and the options `--tokens PATH` and `--out-dir DIR`.  Arguments are read
from left to right, and the first thing that is wrong, or the first request for help or for the
version, settles what happens.
-/

namespace LangCheck.Command

/-- What the command is asked to analyse, and where it writes what it finds. -/
structure Job where
  /-- The source file. -/
  file : String
  /-- Where to write the token listing. -/
  tokens : Option String
  /-- The directory for all reports. -/
  outDir : Option String
deriving DecidableEq, Repr, Inhabited

/-- What the command is asked for. -/
inductive Request where
  | analyse (job : Job)
  | help
  | version
deriving DecidableEq, Repr, Inhabited

/-- What is wrong with the arguments. -/
inductive UsageError where
  | unknownOption (argument : String)
  | unexpectedArgument (argument : String)
  | repeatedOption (name : String)
  | missingValue (name : String)
  /-- An option that takes no value was given one. -/
  | unneededValue (name : String)
  | missingFile
deriving DecidableEq, Repr, Inhabited

/-- What a usage error says. -/
def UsageError.message : UsageError → String
  | unknownOption argument | unexpectedArgument argument =>
    "unexpected argument '" ++ argument ++ "' found"
  | repeatedOption name => "the argument '" ++ name ++ "' cannot be used multiple times"
  | missingValue name => "a value is required for '" ++ name ++ "' but none was supplied"
  | unneededValue name => "unexpected value for '" ++ name ++ "' found; no more were expected"
  | missingFile => "the following required arguments were not provided: <FILE>"

/-- The options that take a value. -/
inductive ValueOption where
  | tokens
  | outDir
deriving DecidableEq, Repr, Inhabited

/-- The spelling of an option. -/
def ValueOption.name : ValueOption → String
  | tokens => "--tokens"
  | outDir => "--out-dir"

/-- What one argument is, before it is known what it is for. -/
inductive Shape where
  /-- `--`, behind which every argument is a file. -/
  | endOfOptions
  /-- An option that takes a value, perhaps with it behind a `=`. -/
  | valued (option : ValueOption) (value : Option String)
  | help
  | version
  /-- An option without value that was given one. -/
  | overfull (name : String)
  | unknown
  /-- Anything that does not begin with a dash, or is just one. -/
  | plain
deriving DecidableEq, Repr, Inhabited

/-- What a long option is, given its name and the value behind its `=`. -/
def Shape.ofLong (name : String) (value : Option String) : Shape :=
  if name = "tokens" then .valued .tokens value
  else if name = "out-dir" then .valued .outDir value
  else if name = "help" then if value.isSome then .overfull "--help" else .help
  else if name = "version" then if value.isSome then .overfull "--version" else .version
  else .unknown

/-- What an argument is. -/
def Shape.of (argument : String) : Shape :=
  match argument.toList with
  | '-' :: '-' :: [] => .endOfOptions
  | '-' :: '-' :: rest =>
    let name := String.ofList (rest.takeWhile (· != '='))
    match rest.dropWhile (· != '=') with
    | [] => .ofLong name none
    | _ :: value => .ofLong name (some (String.ofList value))
  | '-' :: 'V' :: _ => .version
  | '-' :: 'h' :: _ => .help
  | '-' :: _ :: _ => .unknown
  | _ => .plain

/-- What was read of the arguments so far. -/
structure Given where
  /-- The source file. -/
  file : Option String
  /-- Where to write the token listing. -/
  tokens : Option String
  /-- The directory for all reports. -/
  outDir : Option String
deriving DecidableEq, Repr, Inhabited

namespace Given

/-- Nothing was read yet. -/
def nothing : Given := ⟨none, none, none⟩

/-- Takes an argument as the source file. -/
def withFile (g : Given) (argument : String) : Except UsageError Given :=
  if g.file.isSome then .error (.unexpectedArgument argument)
  else if argument.isEmpty then .error (.missingValue "<FILE>")
  else .ok { g with file := some argument }

/-- Takes an argument as the value of an option. -/
def withValue (g : Given) (option : ValueOption) (value : String) : Except UsageError Given :=
  if value.isEmpty then .error (.missingValue option.name)
  else match option with
    | .tokens =>
      if g.tokens.isSome then .error (.repeatedOption option.name)
      else .ok { g with tokens := some value }
    | .outDir =>
      if g.outDir.isSome then .error (.repeatedOption option.name)
      else .ok { g with outDir := some value }

/-- What the command is asked for once all arguments are read. -/
def finish (g : Given) : Except UsageError Request :=
  match g.file with
  | none => .error .missingFile
  | some file => .ok (.analyse ⟨file, g.tokens, g.outDir⟩)

/-- Reads arguments that are all files. -/
def readFiles (g : Given) : List String → Except UsageError Request
  | [] => g.finish
  | argument :: rest => do (← g.withFile argument).readFiles rest

/-- Reads arguments. -/
def read (g : Given) : List String → Except UsageError Request
  | [] => g.finish
  | argument :: rest =>
    match Shape.of argument with
    | .endOfOptions => g.readFiles rest
    | .help => .ok .help
    | .version => .ok .version
    | .overfull name => .error (.unneededValue name)
    | .unknown => .error (.unknownOption argument)
    | .plain => do (← g.withFile argument).read rest
    | .valued option (some value) => do (← g.withValue option value).read rest
    | .valued option none =>
      match rest with
      | [] => .error (.missingValue option.name)
      | value :: rest =>
        if Shape.of value = .plain then do (← g.withValue option value).read rest
        else .error (.missingValue option.name)

end Given

/-- What the command is asked for by its arguments. -/
def Request.ofArguments (arguments : List String) : Except UsageError Request :=
  Given.nothing.read arguments

end LangCheck.Command
