import LineTally.Proofs.Line.Lexeme

/-!
# The kinds of lines in two passes

The kinds of all lines can be told in two passes over a file.  The first pass,
`Inventory.ofLines`, lists the pieces that stand on each line and the string
literals with the lines that they lie on.  The second pass looks at the whole
list at once: a literal is documentation if its quote may be and nothing else on
any of its lines is code, and the kind of a line follows from the pieces and the
literals on it.
-/

namespace LineTally

/-- A string literal and the lines that it lies on. -/
structure Literal where
  /-- How many literals were opened before it. -/
  serial : Nat
  quote : Nat
  first : Nat
  last : Nat
deriving DecidableEq, Repr

/-- The literal lies on line `n`. -/
def Literal.Covers (literal : Literal) (n : Nat) : Prop :=
  literal.first ≤ n ∧ n ≤ literal.last

instance (literal : Literal) (n : Nat) : Decidable (literal.Covers n) :=
  inferInstanceAs (Decidable (_ ∧ _))

/-- What stands on a line. -/
inductive Piece where
  /-- A character in code. -/
  | plain (c : Char)
  /-- A whole single-character literal. -/
  | charLiteral
  | comment
  /-- Part of the string literal with this serial number. -/
  | literal (serial : Nat)
deriving DecidableEq, Repr

namespace Piece

/-- Visible code outside string literals. -/
def isCode : Piece → Bool
  | .plain c => !isBlank c
  | .charLiteral => true
  | .comment => false
  | .literal _ => false

/-- Next to this piece the literal `serial` is no documentation. -/
def disturbs (serial : Nat) : Piece → Bool
  | .literal other => other != serial
  | piece => piece.isCode

end Piece

/-- The pieces and the string literals of a file. -/
structure Inventory where
  mode : Mode := .code
  /-- The number of the current line; at the end, how many lines there are. -/
  line : Nat := 0
  /-- The pieces, each with the number of its line. -/
  pieces : List (Nat × Piece) := []
  /-- The literals, the latest first. -/
  literals : List Literal := []
deriving DecidableEq, Repr

namespace Inventory

/-! ## The first pass -/

/-- A piece on the current line. -/
def put (piece : Piece) (inventory : Inventory) : Inventory :=
  { inventory with pieces := (inventory.line, piece) :: inventory.pieces }

/-- A new literal, on the current line only so far. -/
def newLiteral (quote : Nat) (inventory : Inventory) : Literal :=
  { serial := inventory.literals.length
    quote := quote
    first := inventory.line
    last := inventory.line }

/-- A literal opens on the current line. -/
def openLiteral (quote : Nat) (inventory : Inventory) : Inventory :=
  { inventory.put (.literal (inventory.newLiteral quote).serial) with
    literals := inventory.newLiteral quote :: inventory.literals }

/-- The latest literal lies on the current line too. -/
def extendLiteral (inventory : Inventory) : Inventory :=
  match inventory.literals with
  | [] => inventory
  | literal :: older =>
      { inventory.put (.literal literal.serial) with
        literals := { literal with last := inventory.line } :: older }

/-- A region that is still open leaves a piece on the line, even if the line is empty. -/
def beginLine (inventory : Inventory) : Inventory :=
  match inventory.mode with
  | .code => inventory
  | .block .. => inventory.put .comment
  | .string _ => inventory.extendLiteral

/-- List a lexeme.  What is inside a region belongs to the piece that the region has
on the line already. -/
def note (inventory : Inventory) (lexeme : Lexeme) : Inventory :=
  let listed :=
    match lexeme with
    | .plain c => inventory.put (.plain c)
    | .charLiteral => inventory.put .charLiteral
    | .lineComment => inventory.put .comment
    | .blockOpener _ => inventory.put .comment
    | .quoteOpener quote => inventory.openLiteral quote
    | .blockText | .nestedOpener | .blockCloser | .literalText | .quoteCloser => inventory
  { listed with mode := inventory.mode.after lexeme }

def endLine (inventory : Inventory) : Inventory :=
  { inventory with line := inventory.line + 1 }

/-- List what is on a line.  A line that is a comment because of its first column is
one piece. -/
def readLine (profile : Profile) (inventory : Inventory) (line : Text) : Inventory :=
  if inventory.mode = .code ∧ profile.startsWithColumnOneComment line then
    (inventory.put .comment).endLine
  else ((profile.lexemes inventory.mode line).foldl note inventory.beginLine).endLine

/-- The first pass. -/
def ofLines (profile : Profile) (lines : List Text) : Inventory :=
  lines.foldl (readLine profile) {}

/-! ## The second pass -/

/-- A literal is documentation if its quote may be, and no line that it lies on has
visible code or part of another literal. -/
def Standing (profile : Profile) (inventory : Inventory) (literal : Literal) : Prop :=
  (profile.quotes[literal.quote]?).any (·.doc) = true ∧
    ∀ entry ∈ inventory.pieces, literal.Covers entry.1 →
      entry.2.disturbs literal.serial = false

instance (profile : Profile) (inventory : Inventory) (literal : Literal) :
    Decidable (inventory.Standing profile literal) :=
  inferInstanceAs (Decidable (_ ∧ _))

/-- There is visible code on line `n`, or a literal that is no documentation. -/
def IsCode (profile : Profile) (inventory : Inventory) (n : Nat) : Prop :=
  (∃ entry ∈ inventory.pieces, entry.1 = n ∧ entry.2.isCode = true) ∨
    ∃ literal ∈ inventory.literals, literal.Covers n ∧ ¬ inventory.Standing profile literal

instance (profile : Profile) (inventory : Inventory) (n : Nat) :
    Decidable (inventory.IsCode profile n) :=
  inferInstanceAs (Decidable (_ ∨ _))

/-- There is a comment on line `n`, or documentation. -/
def IsComment (profile : Profile) (inventory : Inventory) (n : Nat) : Prop :=
  (∃ entry ∈ inventory.pieces, entry.1 = n ∧ entry.2 = .comment) ∨
    ∃ literal ∈ inventory.literals, literal.Covers n ∧ inventory.Standing profile literal

instance (profile : Profile) (inventory : Inventory) (n : Nat) :
    Decidable (inventory.IsComment profile n) :=
  inferInstanceAs (Decidable (_ ∨ _))

/-- The kind of line `n`. -/
def kind (profile : Profile) (inventory : Inventory) (n : Nat) : LineKind :=
  if inventory.IsCode profile n then .code
  else if inventory.IsComment profile n then .comment
  else .blank

/-- The kinds of all lines. -/
def kinds (profile : Profile) (inventory : Inventory) : List LineKind :=
  (List.range inventory.line).map (inventory.kind profile)

end Inventory

end LineTally
