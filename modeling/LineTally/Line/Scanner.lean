import LineTally.Language.Opener
import LineTally.Line.Marks
import LineTally.Text.Basic

/-!
# The scanner

The scanner reads the lines of a file one after the other and carries from line
to line whether it stands in code, in a block comment or in a string literal.
Within a line it looks at what is left, takes one `step`, and moves on by the
width that the step asks for.

A literal that may be documentation is a candidate until something decides: code
after its closer on the same line makes it code, the end of that line makes it a
comment.  So the scanner also carries the line where an open candidate began.
-/

namespace LineTally

/-- Where the scanner stands between two characters. -/
inductive Mode where
  | code
  /-- Inside the block comment with index `pair`, `depth` openers deep. -/
  | block (pair depth : Nat)
  /-- Inside the string literal with index `quote`. -/
  | string (quote : Nat)
deriving DecidableEq, Repr

/-- How many regions are open. -/
def Mode.weight : Mode → Nat
  | .code => 0
  | .block _ depth => depth
  | .string _ => 1

/-- The state of a literal that may be documentation. -/
inductive Docstring where
  | none
  /-- Open since line `first`. -/
  | opened (first : Nat)
  /-- Open since line `first` and closed on the current line. -/
  | closed (first : Nat)
deriving DecidableEq, Repr

/-- The scanner between two lines. -/
structure Scanner where
  mode : Mode := .code
  /-- How many lines have been read. -/
  line : Nat := 0
  /-- Their marks, the latest first. -/
  marks : List Marks := []
  /-- The number of the line that opened the latest region. -/
  regionLine : Nat := 0
  doc : Docstring := .none
deriving DecidableEq, Repr

/-- The scanner within a line. -/
structure LineScan where
  mode : Mode
  /-- How many lines come before. -/
  line : Nat
  /-- Their marks, the latest first. -/
  past : List Marks
  current : Marks
  regionLine : Nat
  doc : Docstring
deriving DecidableEq, Repr

/-- How a step moves on. -/
inductive Move where
  /-- By so many bytes. -/
  | advance (width : Nat)
  /-- Past all that is left of the line. -/
  | endOfLine
deriving DecidableEq, Repr

namespace LineScan

/-- Settle what a literal open since line `first` is. -/
def resolveDoc (asCode : Bool) (first : Nat) (scan : LineScan) : LineScan :=
  { scan with
    past := Marks.resolveLatest asCode (scan.line - first) scan.past
    current := scan.current.resolve asCode
    doc := .none }

/-- Code on the current line; a literal that was closed before it is code too. -/
def markCode (scan : LineScan) : LineScan :=
  let scan :=
    match scan.doc with
    | .closed first => scan.resolveDoc true first
    | _ => scan
  { scan with current.code := true }

/-- Enter a string literal.  It may be documentation if its quote may be, nothing
before it on the line is code, and no other literal waits for a decision. -/
def openQuote (profile : Profile) (quote : Nat) (scan : LineScan) : LineScan :=
  let mayBeDoc := (profile.quotes[quote]?).any (·.doc)
  let scan :=
    if mayBeDoc && !scan.current.code && scan.doc = .none then
      { scan with current.doc := true, doc := .opened scan.line }
    else scan.markCode
  { scan with mode := .string quote, regionLine := scan.line }

/-- A step in code. -/
def stepCode (profile : Profile) (scan : LineScan) (rest : Text) : LineScan × Move :=
  match profile.longestOpener rest with
  | some (_, .line _) => ({ scan with current.comment := true }, .endOfLine)
  | some (width, .block pair) =>
      ({ scan with
          current.comment := true
          mode := .block pair 1
          regionLine := scan.line },
        .advance width)
  | some (width, .quote quote) => (scan.openQuote profile quote, .advance width)
  | some (width, .charLiteral _) => (scan.markCode, .advance width)
  | none =>
      (if rest.head?.all isBlank then scan else scan.markCode, .advance rest.firstWidth)

/-- A step in a block comment: the closer comes before an opener that nests. -/
def stepBlock (profile : Profile) (pair depth : Nat) (scan : LineScan) (rest : Text) :
    LineScan × Move :=
  match profile.blockComments[pair]? with
  | none => (scan, .advance rest.firstWidth)
  | some delimiters =>
      if delimiters.closer.isPrefixOf rest then
        ({ scan with mode := if depth ≤ 1 then .code else .block pair (depth - 1) },
          .advance delimiters.closer.byteSize)
      else if delimiters.nestable && delimiters.opener.isPrefixOf rest then
        ({ scan with mode := .block pair (depth + 1) }, .advance delimiters.opener.byteSize)
      else (scan, .advance rest.firstWidth)

/-- A step in a string literal: an escape takes the next character of the line
with it, if there is one, and comes before the delimiter. -/
def stepString (profile : Profile) (quote : Nat) (scan : LineScan) (rest : Text) :
    LineScan × Move :=
  match profile.quotes[quote]? with
  | none => (scan, .advance rest.firstWidth)
  | some literal =>
      if literal.escape.isSome && rest.head? = literal.escape then
        (scan, .advance (rest.firstWidth + Text.firstWidth (rest.drop 1)))
      else if literal.delimiter.isPrefixOf rest then
        let doc :=
          match scan.doc with
          | .opened first => .closed first
          | doc => doc
        ({ scan with mode := .code, doc := doc }, .advance literal.delimiter.byteSize)
      else (scan, .advance rest.firstWidth)

/-- One step at the start of `rest`. -/
def step (profile : Profile) (scan : LineScan) (rest : Text) : LineScan × Move :=
  match scan.mode with
  | .code => scan.stepCode profile rest
  | .block pair depth => scan.stepBlock profile pair depth rest
  | .string quote => scan.stepString profile quote rest

@[simp]
theorem mode_resolveDoc (asCode : Bool) (first : Nat) (scan : LineScan) :
    (scan.resolveDoc asCode first).mode = scan.mode :=
  rfl

@[simp]
theorem mode_markCode (scan : LineScan) : scan.markCode.mode = scan.mode := by
  unfold markCode
  split <;> rfl

theorem weight_stepCode_le (profile : Profile) (scan : LineScan) (rest : Text) :
    (scan.stepCode profile rest).1.mode.weight ≤ scan.mode.weight + 1 := by
  unfold stepCode
  split
  case h_1 => simp
  case h_2 => simp [Mode.weight]
  case h_3 => simp [openQuote, Mode.weight]
  case h_4 => simp
  case h_5 => split <;> simp

theorem weight_stepBlock_le (profile : Profile) (pair depth : Nat) (scan : LineScan)
    (rest : Text) (inside : scan.mode = .block pair depth) :
    (scan.stepBlock profile pair depth rest).1.mode.weight ≤ scan.mode.weight + 1 := by
  unfold stepBlock
  split
  · simp
  · split
    · split
      · simp [Mode.weight]
      · simp only [inside, Mode.weight]
        omega
    · split <;> simp [inside, Mode.weight]

theorem weight_stepString_le (profile : Profile) (quote : Nat) (scan : LineScan) (rest : Text) :
    (scan.stepString profile quote rest).1.mode.weight ≤ scan.mode.weight + 1 := by
  unfold stepString
  split
  · simp
  · split
    · simp
    · split <;> simp [Mode.weight]

/-- A step opens one region at most. -/
theorem weight_step_le {profile : Profile} {scan next : LineScan} {rest : Text} {move : Move}
    (taken : scan.step profile rest = (next, move)) :
    next.mode.weight ≤ scan.mode.weight + 1 := by
  have next_eq : next = (scan.step profile rest).1 := by rw [taken]
  rw [next_eq]
  unfold step
  split
  · exact weight_stepCode_le profile scan rest
  · next pair depth inside => exact weight_stepBlock_le profile pair depth scan rest inside
  · next quote _ => exact weight_stepString_le profile quote scan rest

/-- What is left to do in a line: a bound on the number of steps. -/
def measure (scan : LineScan) (rest : Text) : Nat :=
  2 * rest.length + scan.mode.weight

/-- A step that moves on or closes a region leaves less to do. -/
theorem measure_lt {scan next : LineScan} {rest remaining : Text} {width : Nat}
    (opened : next.mode.weight ≤ scan.mode.weight + 1)
    (dropped : Text.dropBytes? width rest = some remaining)
    (progress : 0 < width ∨ next.mode.weight < scan.mode.weight) :
    next.measure remaining < scan.measure rest := by
  unfold measure
  rcases Nat.eq_zero_or_pos width with rfl | positive
  · rw [Text.dropBytes?_zero, Option.some.injEq] at dropped
    subst dropped
    have := progress.resolve_left (Nat.lt_irrefl 0)
    omega
  · have := Text.length_lt_of_dropBytes? positive dropped
    omega

/-- Step by step to the end of the line.  Two things end the scan early, and
neither happens to a scanner that started afresh: a move that would stop inside a
character, and a step that neither moves on nor closes a region. -/
def run (profile : Profile) (scan : LineScan) (rest : Text) : LineScan :=
  match rest with
  | [] => scan
  | c :: cs =>
      match taken : scan.step profile (c :: cs) with
      | (next, .endOfLine) => next
      | (next, .advance width) =>
          match dropped : Text.dropBytes? width (c :: cs) with
          | none => next
          | some remaining =>
              if progress : 0 < width ∨ next.mode.weight < scan.mode.weight then
                have := measure_lt (weight_step_le taken) dropped progress
                run profile next remaining
              else next
termination_by scan.measure rest
decreasing_by assumption

/-- Leave the line: a literal that was closed on it and that no code followed is a
comment. -/
def endLine (scan : LineScan) : Scanner :=
  let scan :=
    match scan.doc with
    | .closed first => scan.resolveDoc false first
    | _ => scan
  { mode := scan.mode
    line := scan.line + 1
    marks := scan.current :: scan.past
    regionLine := scan.regionLine
    doc := scan.doc }

end LineScan

namespace Scanner

/-- The marks that a line has before its first character is read. -/
def firstMarks (scanner : Scanner) (line : Text) : Marks :=
  let marks : Marks := { blank := line.allBlank }
  match scanner.mode, scanner.doc with
  | .code, _ => marks
  | .block .., _ => { marks with carried := true }
  | .string _, .opened _ => { marks with doc := true }
  | .string _, _ => { marks with code := true }

/-- Enter a line. -/
def beginLine (scanner : Scanner) (line : Text) : LineScan :=
  { mode := scanner.mode
    line := scanner.line
    past := scanner.marks
    current := scanner.firstMarks line
    regionLine := scanner.regionLine
    doc := scanner.doc }

/-- Read one line.  In code, a comment marker in the first column makes the line a
comment and nothing else on it is looked at. -/
def feedLine (profile : Profile) (scanner : Scanner) (line : Text) : Scanner :=
  if scanner.mode = .code ∧ profile.startsWithColumnOneComment line then
    { scanner with
      line := scanner.line + 1
      marks := { scanner.firstMarks line with comment := true } :: scanner.marks }
  else
    ((scanner.beginLine line).run profile line).endLine

theorem feedLine_of_mode_ne_code {profile : Profile} {scanner : Scanner}
    (inRegion : scanner.mode ≠ .code) (line : Text) :
    scanner.feedLine profile line = ((scanner.beginLine line).run profile line).endLine :=
  if_neg fun columnOne => inRegion columnOne.1

/-- Read lines one after the other. -/
def feedLines (profile : Profile) (scanner : Scanner) (lines : List Text) : Scanner :=
  lines.foldl (feedLine profile) scanner

end Scanner

end LineTally
