import LineTally.Path.Basic

/-!
# Files and directories

What lies at a place in a file system, and why it may not be had.
-/

namespace LineTally

/-- What lies at one place. -/
inductive Node where
  | file (content : Bytes)
  /-- A directory with its entries by name. -/
  | directory (entries : List (Bytes × Node))
  /-- A symbolic link to a path. -/
  | link (target : Bytes)
  /-- Neither a file nor a directory; it reads as empty. -/
  | device

/-- Why something in the file system cannot be had. -/
inductive FileError where
  | notFound
  | permissionDenied
  | notADirectory
  | isADirectory
  | nameTooLong
  | tooManyLinks
  | zeroByte
deriving DecidableEq, Repr

/-- The wording for people, with the system's number of the error. -/
def FileError.message : FileError → String
  | .notFound => "No such file or directory (os error 2)"
  | .permissionDenied => "Permission denied (os error 13)"
  | .notADirectory => "Not a directory (os error 20)"
  | .isADirectory => "Is a directory (os error 21)"
  | .nameTooLong => "File name too long (os error 36)"
  | .tooManyLinks => "Too many levels of symbolic links (os error 40)"
  | .zeroByte => "file name contained an unexpected NUL byte"

/-- The length in bytes from which a path is too long. -/
def pathLimit : Nat := 4096

/-- Whether nothing can be had by this path because of its length. -/
def Path.isTooLong (path : Path) : Bool :=
  pathLimit ≤ path.bytes.length

namespace Node

/-- A directory without entries. -/
def emptyDirectory : Node :=
  .directory []

/-- The entry of this name. -/
def child? (name : Bytes) : Node → Option Node
  | .directory entries => (entries.find? (·.1 = name)).map (·.2)
  | _ => none

/-- What lies below, name by name; links are not followed. -/
def below? : List Bytes → Node → Option Node
  | [], node => some node
  | name :: names, node => (node.child? name).bind (below? names)

/-- All bytes. -/
def read : Node → Except FileError Bytes
  | .file content => .ok content
  | .device => .ok []
  | .directory _ => .error .isADirectory
  | .link _ => .error .tooManyLinks

/-- Change the entry of this name; where there is none, it is made from nothing. -/
def changeEntry (name : Bytes) (change : Option Node → Node) :
    List (Bytes × Node) → List (Bytes × Node)
  | [] => [(name, change none)]
  | entry :: rest =>
      if entry.1 = name then (name, change (some entry.2)) :: rest
      else entry :: changeEntry name change rest

/-- Put something in the place to which the names lead; directories that are missing
on the way are made. -/
def put (new : Node) : List Bytes → Node → Node
  | [], _ => new
  | name :: names, .directory entries =>
      .directory <| changeEntry name
        (fun entry => put new names (entry.getD emptyDirectory)) entries
  | _ :: _, other => other

/-- Make something in the place to which the names lead.  Only a file takes the place
of what is there already, and only of a file. -/
def make (new : Node) (place : List Bytes) (root : Node) : Node :=
  match root.below? place, new with
  | none, _ => put new place root
  | some (.file _), .file _ => put new place root
  | some _, _ => root

end Node

end LineTally
