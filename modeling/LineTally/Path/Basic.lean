import LineTally.Text.Utf8

/-!
# Paths

A path is kept exactly as it was written.  What it means is read off its
components: repeated slashes, slashes at the end and single dots inside do not
count, while a single dot at the start does.
-/

namespace LineTally

/-- The byte that separates the names of a path. -/
def slash : UInt8 := 0x2F

/-- The byte before the extension of a file name. -/
def dot : UInt8 := 0x2E

/-- A path, byte by byte as it was written. -/
structure Path where
  bytes : Bytes
deriving DecidableEq, Repr

/-- One step of a path. -/
inductive Component where
  /-- The root of the file system. -/
  | root
  /-- A single dot at the start. -/
  | current
  /-- Two dots. -/
  | parent
  | name (bytes : Bytes)
deriving DecidableEq, Repr

namespace Path

/-- The path with this text. -/
def ofText (text : Text) : Path :=
  ⟨Utf8.encode text⟩

/-- The path for people to read. -/
def display (path : Path) : Text :=
  Utf8.decode path.bytes

/-- Whether the path starts at the root. -/
def isAbsolute (path : Path) : Bool :=
  path.bytes.head? = some slash

/-- The pieces between the slashes. -/
def pieces (path : Path) : List Bytes :=
  path.bytes.splitOnP (· = slash)

/-- The component that a piece stands for, wherever it is. -/
def componentOf? (piece : Bytes) : Option Component :=
  if piece = [] ∨ piece = [dot] then none
  else if piece = [dot, dot] then some .parent
  else some (.name piece)

/-- The steps of the path. -/
def components (path : Path) : List Component :=
  let start :=
    if path.isAbsolute then [Component.root]
    else if path.pieces.head? = some [dot] then [Component.current]
    else []
  start ++ path.pieces.filterMap componentOf?

/-- The last component if it is a name. -/
def fileName? (path : Path) : Option Bytes :=
  match path.components.getLast? with
  | some (.name bytes) => some bytes
  | _ => none

/-- The part of a file name after its last dot, unless nothing comes before that
dot. -/
def extensionOf? (name : Bytes) : Option Bytes :=
  let ending := (name.reverse.takeWhile (· ≠ dot)).reverse
  let stem := name.take (name.length - ending.length - 1)
  if stem.isEmpty then none else some ending

/-- The extension of the file name. -/
def extension? (path : Path) : Option Bytes :=
  path.fileName?.bind extensionOf?

/-- The path of the entry `name` of the directory at this path. -/
def join (path : Path) (name : Bytes) : Path :=
  if path.bytes = [] ∨ path.bytes.getLast? = some slash then ⟨path.bytes ++ name⟩
  else ⟨path.bytes ++ slash :: name⟩

/-! ## The path below a directory

What is left of a path behind the components of another one.  The text of what is
left is kept as it was written; only the pieces at its two ends that stand for no
component are left out. -/

/-- Whether a piece stands for a component wherever it is. -/
def isComponent (piece : Bytes) : Bool :=
  (componentOf? piece).isSome

/-- What comes behind the first `count` pieces that stand for a component. -/
def dropComponents : Nat → List Bytes → List Bytes
  | 0, pieces => pieces
  | _ + 1, [] => []
  | count + 1, piece :: pieces =>
      if isComponent piece then dropComponents count pieces
      else dropComponents (count + 1) pieces

/-- Leave out the pieces at both ends that stand for no component. -/
def trimPieces (pieces : List Bytes) : List Bytes :=
  ((pieces.dropWhile (!isComponent ·)).reverse.dropWhile (!isComponent ·)).reverse

/-- The path of what is left behind the components of `base`, if the path begins with
them.  Behind an empty path all is left. -/
def stripPrefix? (path base : Path) : Option Path :=
  if base.bytes = [] then some path
  else if base.components.isPrefixOf path.components then
    let count := (base.pieces.filter isComponent).length
    some ⟨[slash].intercalate (trimPieces (dropComponents count path.pieces))⟩
  else none

end Path

end LineTally
