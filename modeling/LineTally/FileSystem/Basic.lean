import LineTally.FileSystem.Node

/-!
# File systems

A file system is a tree of nodes with a working directory.  `find` follows a path
from there: dots and links are resolved step by step, and a step is possible only
from a directory.
-/

namespace LineTally

/-- All files, and the directory where relative paths start. -/
structure FileSystem where
  root : Node
  /-- The names that lead from the root to the working directory. -/
  workingDirectory : List Bytes

/-- How many links may be followed on the way along one path. -/
def linkLimit : Nat := 40

/-- The greatest length of a name in bytes. -/
def nameLimit : Nat := 255

/-- The steps along a path.  A slash at the end asks for a directory, as a dot in
its place would. -/
def Path.steps (path : Path) : List Bytes :=
  path.pieces.filter (· ≠ []) ++ if path.bytes.getLast? = some slash then [[dot]] else []

namespace FileSystem

/-- Where the steps lead from a place; places are given by the names that lead
there from the root.  What the last name stands for need not exist: the place is
then the one where it would be made.  At a link, `follow` takes over with the place
and the steps that go on from there. -/
def locateWith (root : Node) (follow : List Bytes → List Bytes → Except FileError (List Bytes))
    (here : List Bytes) : List Bytes → Except FileError (List Bytes)
  | [] => .ok here
  | step :: rest =>
      match root.below? here with
      | some (.directory entries) =>
          if step = [dot] then locateWith root follow here rest
          else if step = [dot, dot] then locateWith root follow here.dropLast rest
          else if nameLimit < step.length then .error .nameTooLong
          else
            match (Node.directory entries).child? step with
            | none => if rest.isEmpty then .ok (here ++ [step]) else .error .notFound
            | some (.link target) =>
                let target : Path := ⟨target⟩
                follow (if target.isAbsolute then [] else here) (target.steps ++ rest)
            | some _ => locateWith root follow (here ++ [step]) rest
      | _ => .error .notADirectory

/-- Where the steps lead from a place, if at most `links` links are followed. -/
def locateFrom (root : Node) :
    Nat → List Bytes → List Bytes → Except FileError (List Bytes)
  | 0 => locateWith root fun _ _ => .error .tooManyLinks
  | links + 1 => locateWith root (locateFrom root links)

/-- Where a path leads. -/
def locate (system : FileSystem) (path : Path) : Except FileError (List Bytes) :=
  if path.bytes.contains 0 then .error .zeroByte
  else if path.bytes.isEmpty then .error .notFound
  else if path.isTooLong then .error .nameTooLong
  else
    locateFrom system.root linkLimit
      (if path.isAbsolute then [] else system.workingDirectory) path.steps

/-- What a path leads to; never a link. -/
def find (system : FileSystem) (path : Path) : Except FileError Node := do
  let place ← system.locate path
  match system.root.below? place with
  | some node => .ok node
  | none => .error .notFound

/-- The content of the file that a path leads to. -/
def read (system : FileSystem) (path : Path) : Except FileError Bytes := do
  (← system.find path).read

/-- The device that is always empty. -/
def nullDevice : Node :=
  .directory [(Utf8.encode "null".toList, .device)]

/-- The name of the working directory of `ofEntries`. -/
def workingName : Bytes :=
  Utf8.encode "work".toList

/-- A file system with the null device and an empty working directory. -/
def initial : FileSystem :=
  { root :=
      .directory [(Utf8.encode "dev".toList, nullDevice), (workingName, .emptyDirectory)]
    workingDirectory := [workingName] }

/-- Where something new of this name is made: a link in the working directory itself,
and anything else where a link of that name leads. -/
def placeOf (system : FileSystem) (new : Node) (step : Bytes) :
    Except FileError (List Bytes) :=
  match new with
  | .link _ => .ok (system.workingDirectory ++ [step])
  | _ => locateFrom system.root linkLimit system.workingDirectory [step]

/-- Make something of this name, and go there. -/
def makeStep (system : FileSystem) (new : Node) (step : Bytes) : FileSystem :=
  match system.placeOf new step with
  | .error _ => system
  | .ok place => { root := Node.make new place system.root, workingDirectory := place }

/-- Make something at a path, and the directories on the way that are missing. -/
def make (system : FileSystem) (path : Path) (new : Node) : FileSystem :=
  let above := path.steps.dropLast.foldl (fun system step => system.makeStep .emptyDirectory step)
    (if path.isAbsolute then { system with workingDirectory := [] } else system)
  match path.steps.getLast? with
  | none => system
  | some step =>
      { root := (above.makeStep new step).root, workingDirectory := system.workingDirectory }

/-- A file system with the null device and a working directory that holds the given
entries, made one after the other. -/
def ofEntries (entries : List (Path × Node)) : FileSystem :=
  entries.foldl (fun system entry => system.make entry.1 entry.2) initial

end FileSystem

end LineTally
