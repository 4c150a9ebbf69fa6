import LineTally.Text.Basic

/-!
# Language profiles

All that is known about a language is how its comments and string literals are
delimited.
-/

namespace LineTally

/-- A pair of comment delimiters whose scope may span several lines. -/
structure BlockComment where
  opener : Text
  closer : Text
  /-- Whether the opener counts again inside the comment. -/
  nestable : Bool := false
deriving DecidableEq, Repr

/-- A string literal; the same delimiter opens and closes it. -/
structure Quote where
  delimiter : Text
  /-- The character that takes away the meaning of the one after it. -/
  escape : Option Char := none
  /-- Whether the literal is a comment when nothing else on its lines is code. -/
  doc : Bool := false
deriving DecidableEq, Repr

/-- The delimiters of one language. -/
structure Profile where
  name : String
  /-- Markers of a comment that runs to the end of the line. -/
  lineComments : List Text := []
  blockComments : List BlockComment := []
  quotes : List Quote := []
  /-- Markers of a comment line that count in the first column only. -/
  columnOneComments : List Text := []
  /-- The quote of single-character literals.  A quote that does not start such a
  literal is plain code. -/
  charLiteral : Option Char := none
deriving DecidableEq, Repr

namespace Profile

/-- Whether a line is a comment because of its first column. -/
def startsWithColumnOneComment (profile : Profile) (line : Text) : Bool :=
  profile.columnOneComments.any (·.isPrefixOf line)

end Profile

end LineTally
