import LangCheck.Command.Files

/-!
# A tree of files

The operations on files, for a tree of files that is kept in memory, with the errors that such
operations can have.
-/

namespace LangCheck.Command

/-- What a path in a tree of files leads to. -/
inductive Node where
  | file (content : ByteArray)
  | directory
deriving Inhabited

/-- Two files are the same if they have the same bytes. -/
instance : DecidableEq Node
  | .file a, .file b => decidable_of_iff (a.data = b.data) (by simp [ByteArray.ext_iff])
  | .directory, .directory => isTrue rfl
  | .file _, .directory => isFalse nofun
  | .directory, .file _ => isFalse nofun

/-- A tree of files: what each path leads to.  A path is the list of the names on it, and the empty
path leads to the directory at the root.  A path that begins with a slash or climbs above the root
leads outside the tree, where no directory has a name in it and none can be given one. -/
structure FileTree where
  /-- The paths that lead somewhere, the empty one left out. -/
  nodes : List (List String × Node)
deriving DecidableEq, Inhabited

namespace FileTree

/-- The tree without any file. -/
def empty : FileTree := ⟨[]⟩

/-- What a path leads to. -/
def node? (t : FileTree) (path : List String) : Option Node :=
  if path = [] then some .directory else t.nodes.lookup path

/-- Lets a path lead to something. -/
def put (t : FileTree) (path : List String) (node : Node) : FileTree :=
  ⟨t.nodes.filter (·.1 ≠ path) ++ [(path, node)]⟩

/-- The number of bytes that a name in a directory may have. -/
def nameLimit : Nat := 255

/-- The number of bytes that a path may have. -/
def pathLimit : Nat := 4095

/-! ## Following a path -/

/-- A directory: the path that leads to it, or none if it lies outside the tree. -/
abbrev Place := Option (List String)

/-- The directory above a directory. -/
def Place.above : Place → Place
  | none => none
  | some path => if path = [] then none else some path.dropLast

/-- The path of a name in a directory. -/
def Place.child (here : Place) (name : String) : Place := here.map (· ++ [name])

/-- The directory that a path starts from. -/
def Place.start (path : String) : Place := if path.startsWith "/" then none else some []

/-- Looks a name up in a directory. -/
def lookup (t : FileTree) (here : Place) (name : String) : Except FileError (Option Node) :=
  if nameLimit < name.utf8ByteSize then .error .nameTooLong
  else .ok ((here.child name).bind t.node?)

/-- The parts of a path between its slashes, without empty ones at its end. -/
def partsOf (path : String) : List String :=
  ((path.splitOn "/").reverse.dropWhile (· = "")).reverse

/-- Goes from a directory to the directory that a path leads to. -/
def enter (t : FileTree) (here : Place) : List String → Except FileError Place
  | [] => .ok here
  | part :: rest =>
    if isStay part then t.enter here rest
    else if part = ".." then t.enter here.above rest
    else match t.lookup here part with
      | .error e => .error e
      | .ok none => .error .notFound
      | .ok (some (.file _)) => .error .notADirectory
      | .ok (some .directory) => t.enter (here.child part) rest

/-- The place that a path leads to: the directory above it, and the name in it.  There is no name if
the path can only lead to a directory, which exists then. -/
def locate (t : FileTree) (path : String) : Except FileError (Place × Option String) :=
  let parts := partsOf path
  if pathLimit < path.utf8ByteSize then .error .nameTooLong
  else match parts.getLast? with
  | none => if path = "" then .error .notFound else .ok (Place.start path, none)
  | some last => do
    let here ← t.enter (Place.start path) parts.dropLast
    if last = "." ∨ last = ".." then return (here, none) else return (here, some last)

/-- Gives a directory a name that leads to something. -/
def putIn (t : FileTree) (here : Place) (name : String) (node : Node) :
    Except FileError FileTree :=
  match here.child name with
  | none => .error .permissionDenied
  | some path => .ok (t.put path node)

/-- Whether a path ends with a slash. -/
def endsWithSlash (path : String) : Bool := path.toList.getLast? = some '/'

/-! ## The operations -/

/-- Reads a text. -/
def read (t : FileTree) (path : String) : Except FileError String := do
  match ← t.locate path with
  | (_, none) => throw .isADirectory
  | (here, some name) =>
    match ← t.lookup here name with
    | none => throw .notFound
    | some .directory => throw .isADirectory
    | some (.file content) =>
      if endsWithSlash path then throw .notADirectory
      else match String.fromUTF8? content with
        | none => throw .invalidText
        | some text => return text

/-- Writes a text. -/
def write (t : FileTree) (path text : String) : Except FileError FileTree := do
  match ← t.locate path with
  | (_, none) => throw .isADirectory
  | (here, some name) =>
    if endsWithSlash path then throw .isADirectory
    else match ← t.lookup here name with
      | some .directory => throw .isADirectory
      | _ => t.putIn here name (.file text.toUTF8)

/-- Makes a directory in one that exists. -/
def makeDir (t : FileTree) (path : String) : Except FileError FileTree := do
  match ← t.locate path with
  | (_, none) => throw .alreadyExists
  | (here, some name) =>
    match ← t.lookup here name with
    | some _ => throw .alreadyExists
    | none => t.putIn here name .directory

/-- Whether a path leads to a directory. -/
def isDirectory (t : FileTree) (path : String) : Bool :=
  match t.locate path with
  | .error _ => false
  | .ok (_, none) => true
  | .ok (here, some name) => (here.child name).bind t.node? = some .directory

/-- The result of an operation that changes the tree: if it fails, the tree stays as it was. -/
def step (change : FileTree → Except FileError FileTree) :
    StateM FileTree (Except FileError Unit) := fun t =>
  match change t with
  | .ok t' => (.ok (), t')
  | .error e => (.error e, t)

/-- The operations on a tree of files. -/
def ops : FileOps (StateM FileTree) where
  read path := fun t => (t.read path, t)
  makeDir path := step (·.makeDir path)
  isDirectory path := fun t => (t.isDirectory path, t)
  write path text := step (·.write path text)

end FileTree

end LangCheck.Command
