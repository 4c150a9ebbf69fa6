import LineTally.Line.Basic

/-!
# Marks

While a line is scanned, marks record what has been met on it.  The marks decide
the kind of the line.  The mark `doc` is provisional: it stands for text inside a
literal that may turn out to be documentation, and `resolve` replaces it once
that is known.
-/

namespace LineTally

/-- What has been met on one line. -/
structure Marks where
  code : Bool := false
  comment : Bool := false
  /-- Text of a literal that may still turn out to be documentation. -/
  doc : Bool := false
  /-- The line began inside a block comment. -/
  carried : Bool := false
  /-- The line holds nothing but blank characters. -/
  blank : Bool := false
deriving DecidableEq, Repr

namespace Marks

/-- The kind of a line: code outweighs comment, and either outweighs blank. -/
def kind (marks : Marks) : LineKind :=
  if marks.code then .code
  else if marks.comment || marks.carried || marks.doc then .comment
  else if marks.blank then .blank
  else .code

/-- Replace the provisional mark, by code or else by comment. -/
def resolve (asCode : Bool) (marks : Marks) : Marks :=
  if marks.doc then
    { marks with
      doc := false
      code := marks.code || asCode
      comment := marks.comment || !asCode }
  else marks

/-- Resolve the latest `count` lines, in a list of marks that holds the latest line
first. -/
def resolveLatest (asCode : Bool) (count : Nat) (latestFirst : List Marks) : List Marks :=
  (latestFirst.take count).map (resolve asCode) ++ latestFirst.drop count

@[simp]
theorem length_resolveLatest (asCode : Bool) (count : Nat) (latestFirst : List Marks) :
    (resolveLatest asCode count latestFirst).length = latestFirst.length := by
  simp only [resolveLatest, List.length_append, List.length_map, List.length_take,
    List.length_drop]
  omega

end Marks

end LineTally
