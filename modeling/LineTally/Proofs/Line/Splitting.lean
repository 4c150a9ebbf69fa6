import LineTally.Language.Table
import LineTally.Line.Classification
import LineTally.Proofs.Line.Invariant

/-!
# Splitting a file in code

A scanner that stands in code has nothing in hand: it goes on as a fresh scanner
does, with all line numbers moved on.  So a file can be cut wherever the scanner
stands in code, and its classification is put together from those of the two
parts (`classify_append_of_mode_eq_code`).

The line of the latest region is the one field that may be left over from before
the cut.  It is compared only while a region is open, and every region that opens
overwrites it.
-/

namespace LineTally

/-- All line numbers moved on by `count`. -/
def Docstring.shift (count : Nat) : Docstring → Docstring
  | .none => .none
  | .opened first => .opened (first + count)
  | .closed first => .closed (first + count)

/-- The scan `later` goes on where `old` lines have been read, and the scan `fresh`
where none have. -/
structure LineScan.Continues (old : List Marks) (fresh later : LineScan) : Prop where
  length_past : fresh.past.length = fresh.line
  mode : later.mode = fresh.mode
  line : later.line = fresh.line + old.length
  past : later.past = fresh.past ++ old
  current : later.current = fresh.current
  regionLine : fresh.mode ≠ .code → later.regionLine = fresh.regionLine + old.length
  doc : later.doc = fresh.doc.shift old.length

/-- The scanner `later` goes on where `old` lines have been read, and the scanner
`fresh` where none have. -/
structure Scanner.Continues (old : List Marks) (fresh later : Scanner) : Prop where
  length_marks : fresh.marks.length = fresh.line
  mode : later.mode = fresh.mode
  line : later.line = fresh.line + old.length
  marks : later.marks = fresh.marks ++ old
  regionLine : fresh.mode ≠ .code → later.regionLine = fresh.regionLine + old.length
  doc : later.doc = fresh.doc.shift old.length

namespace LineScan

variable {profile : Profile} {old : List Marks} {fresh later : LineScan}

theorem Continues.resolveDoc (continues : Continues old fresh later) (asCode : Bool)
    (first : Nat) :
    Continues old (fresh.resolveDoc asCode first)
      (later.resolveDoc asCode (first + old.length)) := by
  have within : fresh.line - first ≤ fresh.past.length := by
    rw [continues.length_past]
    exact Nat.sub_le _ _
  have moved : fresh.line + old.length - (first + old.length) = fresh.line - first :=
    Nat.add_sub_add_right _ _ _
  constructor
  case length_past =>
    rw [LineScan.resolveDoc, Marks.length_resolveLatest]
    exact continues.length_past
  case mode => exact continues.mode
  case line => exact continues.line
  case past =>
    simp only [LineScan.resolveDoc]
    rw [continues.line, continues.past, moved, Marks.resolveLatest_append within]
  case current =>
    simp only [LineScan.resolveDoc]
    rw [continues.current]
  case regionLine => exact continues.regionLine
  case doc => rfl

theorem Continues.settle (continues : Continues old fresh later) (asCode : Bool) :
    Continues old (fresh.settle asCode) (later.settle asCode) := by
  have docEq := continues.doc
  cases pending : fresh.doc with
  | closed first =>
      rw [pending] at docEq
      rw [settle_of_closed pending, settle_of_closed docEq]
      exact continues.resolveDoc asCode first
  | none =>
      rw [pending] at docEq
      rw [settle_of_not_closed (by simp [pending]),
        settle_of_not_closed (by simp [docEq, Docstring.shift])]
      exact continues
  | opened first =>
      rw [pending] at docEq
      rw [settle_of_not_closed (by simp [pending]),
        settle_of_not_closed (by simp [docEq, Docstring.shift])]
      exact continues

theorem Continues.markCode (continues : Continues old fresh later) :
    Continues old fresh.markCode later.markCode := by
  have settled := continues.settle true
  constructor
  case length_past => exact settled.length_past
  case mode => exact settled.mode
  case line => exact settled.line
  case past => exact settled.past
  case current =>
    simp only [markCode_eq_settle]
    rw [settled.current]
  case regionLine => exact settled.regionLine
  case doc => exact settled.doc

theorem Continues.candidate_iff (continues : Continues old fresh later) (quote : Nat) :
    later.Candidate profile quote ↔ fresh.Candidate profile quote := by
  unfold Candidate
  rw [continues.current, continues.doc]
  cases fresh.doc <;> simp [Docstring.shift]

theorem Continues.openQuote (continues : Continues old fresh later) (quote : Nat) :
    Continues old (fresh.openQuote profile quote) (later.openQuote profile quote) := by
  by_cases candidate : fresh.Candidate profile quote
  · rw [openQuote_of_candidate candidate,
      openQuote_of_candidate ((continues.candidate_iff quote).mpr candidate)]
    refine ⟨continues.length_past, rfl, continues.line, continues.past, ?_,
      fun _ => continues.line, congrArg Docstring.opened continues.line⟩
    simp only []
    rw [continues.current]
  · rw [openQuote_of_not_candidate candidate,
      openQuote_of_not_candidate (mt (continues.candidate_iff quote).mp candidate)]
    have marked := continues.markCode
    exact ⟨marked.length_past, rfl, marked.line, marked.past, marked.current,
      fun _ => continues.line, marked.doc⟩

theorem Continues.observe {lexeme : Lexeme} (continues : Continues old fresh later)
    (fits : lexeme.Fits profile fresh.mode) :
    Continues old (fresh.observe profile lexeme) (later.observe profile lexeme) := by
  obtain ⟨length_past, mode, line, past, current, regionLine, doc⟩ := continues
  -- Inside a region the line where it began is compared already.
  have inRegion {mode' : Mode} (region : fresh.mode ≠ .code) :
      Continues old { fresh with mode := mode' } { later with mode := mode' } :=
    ⟨length_past, rfl, line, past, current, fun _ => regionLine region, doc⟩
  cases lexeme with
  | plain c =>
      simp only [LineScan.observe]
      split
      · exact ⟨length_past, mode, line, past, current, regionLine, doc⟩
      · exact Continues.markCode ⟨length_past, mode, line, past, current, regionLine, doc⟩
  | charLiteral =>
      exact Continues.markCode ⟨length_past, mode, line, past, current, regionLine, doc⟩
  | lineComment =>
      refine ⟨length_past, mode, line, past, ?_, regionLine, doc⟩
      simp only [LineScan.observe]
      rw [current]
  | blockOpener pair =>
      refine ⟨length_past, rfl, line, past, ?_, fun _ => line, doc⟩
      simp only [LineScan.observe]
      rw [current]
  | quoteOpener quote =>
      exact Continues.openQuote ⟨length_past, mode, line, past, current, regionLine, doc⟩ quote
  | quoteCloser =>
      refine ⟨length_past, rfl, line, past, current, fun notCode => absurd rfl notCode, ?_⟩
      simp only [LineScan.observe]
      rw [doc]
      cases fresh.doc <;> rfl
  | blockText => exact ⟨length_past, mode, line, past, current, regionLine, doc⟩
  | literalText => exact ⟨length_past, mode, line, past, current, regionLine, doc⟩
  | nestedOpener =>
      simp only [LineScan.observe]
      rw [mode]
      apply inRegion
      intro inCode
      rw [inCode] at fits
      cases fits
  | blockCloser =>
      simp only [LineScan.observe]
      rw [mode]
      apply inRegion
      intro inCode
      rw [inCode] at fits
      cases fits

theorem Continues.run (continues : Continues old fresh later)
    (valid : fresh.mode.Valid profile) (text : Text) :
    Continues old (fresh.run profile text) (later.run profile text) := by
  have laterValid : later.mode.Valid profile := continues.mode ▸ valid
  rw [run_eq_foldl_observe laterValid, continues.mode]
  exact related_run (fun fits _ continues => continues.observe fits) valid continues text

theorem Continues.endLine (continues : Continues old fresh later) :
    Scanner.Continues old fresh.endLine later.endLine := by
  have settled := continues.settle false
  rw [endLine_eq_settle, endLine_eq_settle]
  constructor
  case length_marks => exact congrArg (· + 1) settled.length_past
  case mode => exact settled.mode
  case line =>
    simp only [leave]
    rw [settled.line, Nat.add_right_comm]
  case marks =>
    simp only [leave]
    rw [settled.current, settled.past, List.cons_append]
  case regionLine => exact settled.regionLine
  case doc => exact settled.doc

end LineScan

namespace Scanner

variable {profile : Profile} {old : List Marks} {fresh later : Scanner}

theorem Continues.beginLine (continues : Continues old fresh later) (line : Text) :
    LineScan.Continues old (fresh.beginLine line) (later.beginLine line) := by
  constructor
  case length_past => exact continues.length_marks
  case mode => exact continues.mode
  case line => exact continues.line
  case past => exact continues.marks
  case current =>
    simp only [Scanner.beginLine, Scanner.firstMarks]
    rw [continues.mode, continues.doc]
    cases fresh.mode <;> cases fresh.doc <;> rfl
  case regionLine => exact continues.regionLine
  case doc => exact continues.doc

theorem Continues.feedLine (continues : Continues old fresh later)
    (valid : fresh.mode.Valid profile) (line : Text) :
    Continues old (fresh.feedLine profile line) (later.feedLine profile line) := by
  by_cases columnOne : fresh.mode = .code ∧ profile.startsWithColumnOneComment line = true
  · have laterColumnOne : later.mode = .code ∧ profile.startsWithColumnOneComment line = true := by
      rw [continues.mode]
      exact columnOne
    unfold Scanner.feedLine
    rw [if_pos columnOne, if_pos laterColumnOne]
    constructor
    case length_marks => exact congrArg (· + 1) continues.length_marks
    case mode => exact continues.mode
    case line =>
      simp only []
      rw [continues.line, Nat.add_right_comm]
    case marks =>
      simp only [Scanner.firstMarks, columnOne.1, laterColumnOne.1]
      rw [continues.marks, List.cons_append]
    case regionLine => exact continues.regionLine
    case doc => exact continues.doc
  · have laterNot : ¬ (later.mode = .code ∧ profile.startsWithColumnOneComment line = true) := by
      rw [continues.mode]
      exact columnOne
    unfold Scanner.feedLine
    rw [if_neg columnOne, if_neg laterNot]
    exact ((continues.beginLine line).run valid line).endLine

theorem Continues.feedLines (continues : Continues old fresh later)
    (sound : fresh.Sound profile) (lines : List Text) :
    Continues old (fresh.feedLines profile lines) (later.feedLines profile lines) := by
  rw [Scanner.feedLines]
  induction lines generalizing fresh later with
  | nil => exact continues
  | cons line rest inductionHypothesis =>
      exact inductionHypothesis (continues.feedLine sound.valid line) (sound.feedLine line)

/-- The old lines stay as they are, and the new ones are as in a file of their own. -/
theorem Continues.finalMarks (continues : Continues old fresh later) :
    later.finalMarks = fresh.finalMarks ++ old := by
  have settled (first : Nat) :
      Marks.resolveLatest false (later.line - (first + old.length)) later.marks =
        Marks.resolveLatest false (fresh.line - first) fresh.marks ++ old := by
    have within : fresh.line - first ≤ fresh.marks.length := by
      rw [continues.length_marks]
      exact Nat.sub_le _ _
    rw [continues.line, continues.marks, Nat.add_sub_add_right,
      Marks.resolveLatest_append within]
  unfold Scanner.finalMarks
  rw [continues.doc]
  cases fresh.doc with
  | none => exact continues.marks
  | opened first => exact settled first
  | closed first => exact settled first

/-- A region is reported where it is in the new lines, counted with the old ones. -/
theorem Continues.anomaly? (continues : Continues old fresh later) :
    later.anomaly? profile =
      (fresh.anomaly? profile).map fun anomaly =>
        { anomaly with line := anomaly.line + old.length } := by
  unfold Scanner.anomaly?
  rw [continues.mode]
  cases inside : fresh.mode with
  | code => rfl
  | block pair depth =>
      rw [continues.regionLine (by simp [inside]), Option.map_map]
      simp only [Function.comp_def, Nat.add_right_comm]
  | string quote =>
      rw [continues.regionLine (by simp [inside]), Option.map_map]
      simp only [Function.comp_def, Nat.add_right_comm]

/-- In code, a scanner with a history goes on as a fresh one. -/
theorem Sound.continues {scanner : Scanner} (sound : scanner.Sound profile)
    (inCode : scanner.mode = .code) : Continues scanner.marks {} scanner := by
  constructor
  case length_marks => rfl
  case mode => exact inCode
  case line => exact sound.length_marks.symm.trans (Nat.zero_add _).symm
  case marks => rfl
  case regionLine => exact fun notCode => absurd rfl notCode
  case doc => exact sound.doc_eq_none (by simp [inCode])

theorem feedLines_append (profile : Profile) (scanner : Scanner) (first second : List Text) :
    scanner.feedLines profile (first ++ second) =
      (scanner.feedLines profile first).feedLines profile second :=
  List.foldl_append

theorem finalMarks_of_doc_eq_none {scanner : Scanner} (settled : scanner.doc = .none) :
    scanner.finalMarks = scanner.marks := by
  rw [Scanner.finalMarks, settled]

end Scanner

/-- A file can be cut wherever the scanner stands in code: the kinds of the lines are
those of the two parts, one after the other, the counts add up, and an open region is
the one of the second part, with its line counted from the start of the file. -/
theorem classify_append_of_mode_eq_code (profile : Profile) (first second : List Text)
    (inCode : (Scanner.feedLines profile {} first).mode = .code) :
    (classify profile (first ++ second)).tags =
        (classify profile first).tags ++ (classify profile second).tags ∧
      (classify profile (first ++ second)).counts =
        (classify profile first).counts + (classify profile second).counts ∧
      (classify profile (first ++ second)).anomaly =
        (classify profile second).anomaly.map fun anomaly =>
          { anomaly with line := anomaly.line + first.length } := by
  have sound := Scanner.sound_feedLines profile first
  have continues := (sound.continues inCode).feedLines (Scanner.sound_empty profile) second
  have settled := Scanner.finalMarks_of_doc_eq_none (sound.doc_eq_none (by simp [inCode]))
  have tags : (classify profile (first ++ second)).tags =
      (classify profile first).tags ++ (classify profile second).tags := by
    simp only [classify, Scanner.finish]
    rw [Scanner.feedLines_append, continues.finalMarks, settled, List.map_append,
      List.reverse_append]
  refine ⟨tags, ?_, ?_⟩
  · calc
      (classify profile (first ++ second)).counts =
          LineCounts.ofKinds (classify profile (first ++ second)).tags := rfl
      _ = LineCounts.ofKinds (classify profile first).tags +
          LineCounts.ofKinds (classify profile second).tags := by
        rw [tags, LineCounts.ofKinds_append]
  · simp only [classify, Scanner.finish]
    rw [Scanner.feedLines_append, continues.anomaly?, Scanner.length_marks_feedLines]
    simp only [List.length_nil, Nat.zero_add]

/-- A language whose string literals may be documentation. -/
def Profile.documented : Profile :=
  { name := "Python", lineComments := Delimiters.hash, quotes := Delimiters.docstrings }

/-- Behind documentation that has been closed a file can be cut, even if a literal that
opens later is never closed. -/
theorem classify_append_after_documentation :
    (Scanner.feedLines .documented {} ["'''a".toList, "b'''".toList]).mode = .code ∧
      (classify .documented (["'''a".toList, "b'''".toList] ++ ["x".toList, "'''".toList])).tags =
        (classify .documented ["'''a".toList, "b'''".toList]).tags ++
          (classify .documented ["x".toList, "'''".toList]).tags ∧
      (classify .documented (["'''a".toList, "b'''".toList] ++ ["x".toList, "'''".toList])).counts =
        (classify .documented ["'''a".toList, "b'''".toList]).counts +
          (classify .documented ["x".toList, "'''".toList]).counts ∧
      (classify .documented
          (["'''a".toList, "b'''".toList] ++ ["x".toList, "'''".toList])).anomaly =
        (classify .documented ["x".toList, "'''".toList]).anomaly.map fun anomaly =>
          { anomaly with line := anomaly.line + 2 } :=
  ⟨by decide +kernel, classify_append_of_mode_eq_code _ _ _ (by decide +kernel)⟩

end LineTally
