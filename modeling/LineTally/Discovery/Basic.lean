import LineTally.Discovery.Walk
import LineTally.Path.Order

/-!
# Discovery

The files that a run looks at: everything that is found from the given paths, in
order of the paths, each path once.
-/

namespace LineTally

/-- The files that were found. -/
structure Discovery where
  /-- In order, without equal paths. -/
  files : List Path
  /-- How many places could not be searched. -/
  errors : Nat
deriving DecidableEq, Repr

namespace Discovery

/-- Everything that the search comes across. -/
def findings (options : WalkOptions) (find : Path → Except FileError Node)
    (paths : List Path) (read : DirectoryReader := .ofTree) : List Finding :=
  paths.flatMap fun path => examine options find path read

/-- Whether a path leads to something. -/
def doesExist (find : Path → Except FileError Node) (path : Path) : Bool :=
  (find path).isOk

/-- What the findings amount to. -/
def ofFindings (findings : List Finding) : Discovery :=
  { files := Path.dropRepeats (Path.sort (findings.filterMap Finding.file?))
    errors := findings.countP Finding.isError }

/-- Find the files; `none` if none of the paths exists. -/
def discover (options : WalkOptions) (find : Path → Except FileError Node)
    (paths : List Path) (read : DirectoryReader := .ofTree) : Option Discovery :=
  if paths.any (doesExist find) then some (ofFindings (findings options find paths read))
  else none

/-- What the log says about the search. -/
def log (options : WalkOptions) (find : Path → Except FileError Node) (paths : List Path)
    (read : DirectoryReader := .ofTree) : Log :=
  (findings options find paths read).filterMap (Finding.record? options) ++
    match discover options find paths read with
    | none => []
    | some found =>
        [⟨.debug, .discovery,
          "discovered ".toList ++ Text.ofNat found.files.length ++ " files".toList⟩]

end Discovery

end LineTally
