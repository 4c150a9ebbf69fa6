import LineTally.FileSystem.Node
import LineTally.Glob.Matching
import LineTally.Log
import LineTally.Path.Basic

/-!
# Searching a directory

The search goes through a directory and everything below it, and makes a finding
of each file that it looks for and of each place where it has to stop.  Links are
never followed.
-/

namespace LineTally

/-! ## What is looked for -/

/-- How directories are searched. -/
structure WalkOptions where
  /-- The names of directories that are never entered. -/
  excludedNames : List Bytes
  /-- What a file that is found has to match, by its name or by its path below the
  directory where the search began. -/
  filespec : Option Glob.Pattern := none
  /-- How many directories deep the search goes below its start. -/
  maxDepth : Nat := 100
  /-- Whether directories inside a directory are left out. -/
  nonRecursive : Bool := false

namespace WalkOptions

/-- The names of directories that are never entered, whatever is asked for. -/
def defaultExcluded : List Bytes :=
  [".git", ".svn", ".hg", "__pycache__", "node_modules", "vendor"].map
    fun name => Utf8.encode name.toList

/-- Whether a directory is never entered because of its name. -/
def excludes (options : WalkOptions) (directory : Path) : Bool :=
  directory.fileName?.any options.excludedNames.contains

/-- Slashes for backslashes, which some systems separate names with. -/
def withSlashes (text : Text) : Text :=
  text.map fun c => if c = '\\' then '/' else c

/-- Whether a file that was found below `start` is looked for: by its name, or else by
its path from there, with slashes for backslashes.  Neither is matched unless it is
text. -/
def accepts (options : WalkOptions) (start file : Path) : Bool :=
  options.filespec.all fun pattern =>
    (file.fileName?.bind Utf8.decode?).any pattern.isMatch ||
      ((file.stripPrefix? start).bind fun relative => Utf8.decode? relative.bytes).any
        fun text => pattern.isMatch (withSlashes text)

end WalkOptions

/-! ## Reading directories

The system lists the entries of a directory one after the other, and says of each entry
what it is.  Each of these questions can fail. -/

/-- What the system says about one entry of a directory. -/
inductive EntryReading where
  | entry (name : Bytes) (node : Node)
  /-- An entry that cannot be read. -/
  | lost (error : FileError)
  /-- An entry of which it is not known what it is. -/
  | untyped (name : Bytes) (error : FileError)

/-- How the system reads the directory at a path, in the order in which it lists the
entries. -/
abbrev DirectoryReader := Path → Node → Except FileError (List EntryReading)

/-- All entries of a directory, in the order of the tree.  A directory is read by its
path, so one whose path has become too long cannot be read. -/
def DirectoryReader.ofTree : DirectoryReader := fun path node =>
  if path.isTooLong then .error .nameTooLong
  else
    match node with
    | .directory entries => .ok (entries.map fun entry => .entry entry.1 entry.2)
    | _ => .error .notADirectory

/-! ## The search -/

/-- What the search comes across. -/
inductive Finding where
  /-- A path to start from that does not exist. -/
  | missing (path : Path)
  /-- A file that is looked for. -/
  | file (path : Path)
  /-- A directory that is too deep to enter. -/
  | tooDeep (path : Path)
  /-- A directory that cannot be read. -/
  | unreadable (path : Path) (error : FileError)
  /-- An entry of the directory at the path that cannot be read. -/
  | lost (directory : Path) (error : FileError)
  /-- An entry of which it is not known what it is. -/
  | untyped (path : Path) (error : FileError)
  /-- A directory that is not entered because of its name. -/
  | excluded (path : Path)
deriving DecidableEq, Repr

/-- What comes of one entry of a directory; `search` goes on with a directory. -/
def examineEntry (options : WalkOptions) (start : Path) (search : Path → Node → List Finding)
    (directory : Path) : EntryReading → List Finding
  | .lost error => [.lost directory error]
  | .untyped name error => [.untyped (directory.join name) error]
  | .entry name (.directory entries) =>
      if options.nonRecursive then [] else search (directory.join name) (.directory entries)
  | .entry name (.file _) =>
      if options.accepts start (directory.join name) then [.file (directory.join name)] else []
  | .entry _ _ => []

/-- Search a node at a path, `depth` levels below `start`; `budget` more levels may be
entered.  The start itself is entered whatever its name is.  A file is found whatever the
length of its path. -/
def walkWith (read : DirectoryReader) (options : WalkOptions) (start : Path) :
    Nat → Nat → Path → Node → List Finding
  | 0, _, path, _ => [.tooDeep path]
  | budget + 1, depth, path, node =>
      if 0 < depth && options.excludes path then [.excluded path]
      else
        match read path node with
        | .error error => [.unreadable path error]
        | .ok entries =>
            entries.flatMap
              (examineEntry options start (walkWith read options start budget (depth + 1)) path)

/-- Search a node, with its directories read from the tree. -/
abbrev walk (options : WalkOptions) (start : Path) : Nat → Nat → Path → Node → List Finding :=
  walkWith .ofTree options start

@[simp]
theorem walkWith_zero (read : DirectoryReader) (options : WalkOptions) (start : Path)
    (depth : Nat) (path : Path) (node : Node) :
    walkWith read options start 0 depth path node = [.tooDeep path] :=
  rfl

theorem walk_succ (options : WalkOptions) (start : Path) (budget depth : Nat) (path : Path)
    (node : Node) :
    walk options start (budget + 1) depth path node =
      if 0 < depth && options.excludes path then [.excluded path]
      else if path.isTooLong then [.unreadable path .nameTooLong]
      else
        match node with
        | .directory entries =>
            entries.flatMap fun entry =>
              examineEntry options start (walk options start budget (depth + 1)) path
                (.entry entry.1 entry.2)
        | _ => [.unreadable path .notADirectory] := by
  unfold walk
  cases tooLong : path.isTooLong with
  | true => simp [walkWith, DirectoryReader.ofTree, tooLong]
  | false => cases node <;> simp [walkWith, DirectoryReader.ofTree, tooLong, List.flatMap_map]

/-- Search from one of the paths that are given.  A path that leads to a file is
taken whatever the file is. -/
def examine (options : WalkOptions) (find : Path → Except FileError Node) (path : Path)
    (read : DirectoryReader := .ofTree) : List Finding :=
  match find path with
  | .error _ => [.missing path]
  | .ok (.file _) => [.file path]
  | .ok node => walkWith read options path (options.maxDepth + 1) 0 path node

namespace Finding

/-- The path of a file that was found. -/
def file? : Finding → Option Path
  | .file path => some path
  | _ => none

/-- Whether something that exists could not be searched. -/
def isError : Finding → Bool
  | .tooDeep _ => true
  | .unreadable .. => true
  | .lost .. => true
  | .untyped .. => true
  | _ => false

/-- What the log says about a finding. -/
def record? (options : WalkOptions) : Finding → Option Log.Record
  | .file _ => none
  | .missing path =>
      some ⟨.warn, .discovery, "Path does not exist: ".toList ++ path.display⟩
  | .tooDeep path =>
      some ⟨.warn, .discovery, "Maximum directory depth (".toList ++
        Text.ofNat options.maxDepth ++ ") reached at ".toList ++ path.display⟩
  | .unreadable path error =>
      some ⟨.warn, .discovery, "Error reading directory ".toList ++ path.display ++
        ": ".toList ++ error.message.toList⟩
  | .lost directory error =>
      some ⟨.warn, .discovery, "Error reading entry in ".toList ++ directory.display ++
        ": ".toList ++ error.message.toList⟩
  | .untyped path error =>
      some ⟨.warn, .discovery, "Error reading type for ".toList ++ path.display ++
        ": ".toList ++ error.message.toList⟩
  | .excluded path =>
      some ⟨.trace, .discovery, "excluded directory ".toList ++ path.display⟩

end Finding

end LineTally
