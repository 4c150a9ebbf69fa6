import LineTally.Line.Scanner

/-!
# Classification

The result for a whole file: the kind of each line, how many there are of each
kind, and the region that is still open where the file ends.
-/

namespace LineTally

/-- The kind of a region. -/
inductive RegionKind where
  | block
  | string
deriving DecidableEq, Repr

/-- A region that is still open where the file ends. -/
structure Anomaly where
  kind : RegionKind
  /-- The line of its opener, counted from one. -/
  line : Nat
  /-- Its opener. -/
  delimiter : Text
deriving DecidableEq, Repr

/-- The wording for people. -/
def Anomaly.message (anomaly : Anomaly) : Text :=
  let region := match anomaly.kind with
    | .block => "block comment"
    | .string => "string"
  s!"{region} `".toList ++ anomaly.delimiter ++ "` opened at line ".toList ++
    Text.ofNat anomaly.line ++ " is never closed".toList

/-- What is known about the lines of a file. -/
structure Classification where
  counts : LineCounts
  /-- The kind of each line, in order. -/
  tags : List LineKind
  anomaly : Option Anomaly
deriving DecidableEq, Repr

namespace Scanner

/-- The region that is open. -/
def anomaly? (profile : Profile) (scanner : Scanner) : Option Anomaly :=
  match scanner.mode with
  | .code => none
  | .block pair _ => (profile.blockComments[pair]?).map fun delimiters =>
      { kind := .block, line := scanner.regionLine + 1, delimiter := delimiters.opener }
  | .string quote => (profile.quotes[quote]?).map fun literal =>
      { kind := .string, line := scanner.regionLine + 1, delimiter := literal.delimiter }

/-- The marks once nothing more is read: a literal that still waits for a decision
is a comment. -/
def finalMarks (scanner : Scanner) : List Marks :=
  match scanner.doc with
  | .none => scanner.marks
  | .opened first => Marks.resolveLatest false (scanner.line - first) scanner.marks
  | .closed first => Marks.resolveLatest false (scanner.line - first) scanner.marks

/-- The end of the file. -/
def finish (profile : Profile) (scanner : Scanner) : Classification :=
  let tags := (scanner.finalMarks.map Marks.kind).reverse
  { counts := LineCounts.ofKinds tags
    tags := tags
    anomaly := scanner.anomaly? profile }

end Scanner

/-- Classify the lines of a file. -/
def classify (profile : Profile) (lines : List Text) : Classification :=
  (Scanner.feedLines profile {} lines).finish profile

end LineTally
