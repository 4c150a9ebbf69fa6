import LineTally.Line.Numbering
import LineTally.Proofs.Line.EachLine
import LineTally.Proofs.Line.Observation

/-!
# What holds of the scanner

The fields of the scanner depend on each other.  A literal that may be
documentation is open only inside a string literal that may be documentation,
it begins where the open region begins, and exactly its lines carry the
provisional mark.  `Scanner.Sound` states this of the scanner between two lines
and `LineScan.Sound` of the scanner within a line, where a literal may also have
been closed; every lexeme and every line preserves it.
-/

namespace LineTally

namespace Docstring

/-- The line where a literal that waits for a decision began. -/
def first? : Docstring → Option Nat
  | .none => Option.none
  | .opened first => some first
  | .closed first => some first

@[simp]
theorem first?_close (doc : Docstring) : doc.close.first? = doc.first? := by
  cases doc <;> rfl

theorem first?_eq_none_iff {doc : Docstring} : doc.first? = Option.none ↔ doc = .none := by
  cases doc <;> simp [first?]

theorem eq_opened_of_first?_eq_some {doc : Docstring} {first : Nat}
    (notClosed : ∀ first, doc ≠ .closed first) (waiting : doc.first? = some first) :
    doc = .opened first := by
  cases doc with
  | none => contradiction
  | opened first' => exact congrArg opened (Option.some.inj waiting)
  | closed first' => exact absurd rfl (notClosed first')

/-- The provisional mark stands on the lines of the literal that waits for a
decision, and none of them is known to be code. -/
def MarksLine (doc : Docstring) (n : Nat) (marks : Marks) : Prop :=
  (marks.doc = true ↔ ∃ first, doc.first? = some first ∧ first ≤ n) ∧
    (marks.doc = true → marks.code = false)

theorem marksLine_none_iff {n : Nat} {marks : Marks} :
    Docstring.none.MarksLine n marks ↔ marks.doc = false := by
  cases marks_doc : marks.doc <;> simp [MarksLine, first?, marks_doc]

/-- On a line that is not marked no literal waits for a decision. -/
theorem MarksLine.congr {doc doc' : Docstring} {n : Nat} {marks marks' : Marks}
    (marked : doc.MarksLine n marks) (firstEq : doc'.first? = doc.first?)
    (docEq : marks'.doc = marks.doc) (codeEq : marks'.code = marks.code) :
    doc'.MarksLine n marks' := by
  rw [MarksLine, firstEq, docEq, codeEq]
  exact marked

end Docstring

/-- The open region is a literal that may be documentation. -/
def Mode.MayDocument (profile : Profile) (mode : Mode) : Prop :=
  ∃ quote literal, mode = .string quote ∧ profile.quotes[quote]? = some literal ∧
    literal.doc = true

/-- What holds of the scanner within a line. -/
structure LineScan.Sound (profile : Profile) (scan : LineScan) : Prop where
  valid : scan.mode.Valid profile
  length_past : scan.past.length = scan.line
  regionLine_le : scan.mode ≠ .code → scan.regionLine ≤ scan.line
  opened : ∀ {first}, scan.doc = .opened first →
    scan.mode.MayDocument profile ∧ scan.regionLine = first
  closed : ∀ {first}, scan.doc = .closed first → ∀ quote, scan.mode ≠ .string quote
  lines : Marks.EachLine scan.doc.MarksLine (scan.current :: scan.past)

/-- What holds of the scanner between two lines. -/
structure Scanner.Sound (profile : Profile) (scanner : Scanner) : Prop where
  valid : scanner.mode.Valid profile
  length_marks : scanner.marks.length = scanner.line
  regionLine_lt : scanner.mode ≠ .code → scanner.regionLine < scanner.line
  opened : ∀ {first}, scanner.doc = .opened first →
    scanner.mode.MayDocument profile ∧ scanner.regionLine = first
  not_closed : ∀ first, scanner.doc ≠ .closed first
  lines : Marks.EachLine scanner.doc.MarksLine scanner.marks

namespace LineScan

variable {profile : Profile} {scan : LineScan}

theorem Sound.not_opened_of_mode_eq_code (sound : scan.Sound profile)
    (inCode : scan.mode = .code) (first : Nat) : scan.doc ≠ .opened first := by
  intro isOpened
  obtain ⟨⟨quote, literal, inString, _⟩, _⟩ := sound.opened isOpened
  rw [inCode] at inString
  contradiction

/-- Settling a closed literal resolves every line that carries the provisional mark,
and touches no other. -/
theorem eachLine_settle {holds holds' : Nat → Marks → Prop} {asCode : Bool}
    (each : Marks.EachLine holds (scan.current :: scan.past))
    (length_past : scan.past.length = scan.line)
    (marked : ∀ n marks, holds n marks → scan.doc.MarksLine n marks)
    (kept : (∀ first, scan.doc ≠ .closed first) → ∀ n marks, n ≤ scan.line → holds n marks →
      holds' n marks)
    (resolved : ∀ first, scan.doc = .closed first → ∀ n marks, n ≤ scan.line →
      holds n marks → holds' n (marks.resolve asCode)) :
    Marks.EachLine holds' ((scan.settle asCode).current :: (scan.settle asCode).past) := by
  rcases scan.doc.eq_closed_or_ne with ⟨first, closed⟩ | notClosed
  · obtain ⟨latest, earlier⟩ := each
    rw [settle_of_closed closed]
    constructor
    · simp only [resolveDoc, Marks.length_resolveLatest]
      exact resolved first closed _ _ (Nat.le_of_eq length_past) latest
    · simp only [resolveDoc, ← length_past]
      apply earlier.resolveLatest
      intro n marks below held
      have after := resolved first closed n marks (length_past ▸ Nat.le_of_lt below) held
      by_cases reached : first ≤ n
      · rwa [if_pos reached]
      · have unmarked : marks.doc = false := by
          rw [← Bool.not_eq_true, (marked n marks held).1, closed]
          rintro ⟨first', same, reached'⟩
          cases same
          exact reached reached'
        rw [if_neg reached]
        rwa [Marks.resolve_of_doc_eq_false unmarked] at after
  · rw [settle_of_not_closed notClosed]
    apply each.imp
    intro n marks below held
    rw [List.length_cons, length_past] at below
    exact kept notClosed n marks (Nat.le_of_lt_succ below) held

theorem Sound.settle (sound : scan.Sound profile) (asCode : Bool) :
    (scan.settle asCode).Sound profile := by
  rcases scan.doc.eq_closed_or_ne with ⟨first, closed⟩ | notClosed
  · have lines : Marks.EachLine Docstring.none.MarksLine
        ((scan.settle asCode).current :: (scan.settle asCode).past) := by
      apply eachLine_settle sound.lines sound.length_past (fun _ _ marked => marked)
      · exact fun notClosed => absurd closed (notClosed first)
      · intro _ _ n marks _ _
        exact Docstring.marksLine_none_iff.mpr (Marks.doc_resolve asCode marks)
    rw [settle_of_closed closed] at lines ⊢
    constructor
    case valid => exact sound.valid
    case length_past => exact (Marks.length_resolveLatest ..).trans sound.length_past
    case regionLine_le => exact sound.regionLine_le
    case opened =>
      intro first isOpened
      contradiction
    case closed =>
      intro first isClosed
      contradiction
    case lines => exact lines
  · rwa [settle_of_not_closed notClosed]

/-- Once a closed literal is settled, nothing waits for a decision in code. -/
theorem Sound.doc_settle (sound : scan.Sound profile) (inCode : scan.mode = .code)
    (asCode : Bool) : (scan.settle asCode).doc = .none := by
  rcases scan.doc.eq_closed_or_ne with ⟨first, closed⟩ | notClosed
  · rw [settle_of_closed closed]
    rfl
  · rw [settle_of_not_closed notClosed]
    cases docEq : scan.doc with
    | none => rfl
    | opened first => exact absurd docEq (sound.not_opened_of_mode_eq_code inCode first)
    | closed first => exact absurd docEq (notClosed first)

theorem Sound.markCode (sound : scan.Sound profile) (inCode : scan.mode = .code) :
    scan.markCode.Sound profile := by
  have settled := sound.settle true
  have docEq := sound.doc_settle inCode true
  obtain ⟨currentMarked, pastMarked⟩ := settled.lines
  rw [markCode_eq_settle]
  constructor
  case valid => exact settled.valid
  case length_past => exact settled.length_past
  case regionLine_le => exact settled.regionLine_le
  case opened => exact settled.opened
  case closed => exact settled.closed
  case lines =>
    constructor
    · rw [docEq, Docstring.marksLine_none_iff] at currentMarked ⊢
      exact currentMarked
    · exact pastMarked

/-! ## Opening a literal -/

/-- A literal that opens here may turn out to be documentation. -/
def Candidate (profile : Profile) (quote : Nat) (scan : LineScan) : Prop :=
  (profile.quotes[quote]?).any (·.doc) = true ∧ scan.current.code = false ∧ scan.doc = .none

theorem openQuote_of_candidate {quote : Nat} (candidate : scan.Candidate profile quote) :
    scan.openQuote profile quote =
      { scan with
        current.doc := true
        doc := .opened scan.line
        mode := .string quote
        regionLine := scan.line } := by
  obtain ⟨mayBeDoc, notCode, undecided⟩ := candidate
  simp [openQuote, mayBeDoc, notCode, undecided]

theorem openQuote_of_not_candidate {quote : Nat} (notCandidate : ¬ scan.Candidate profile quote) :
    scan.openQuote profile quote =
      { scan.markCode with
        mode := .string quote
        regionLine := scan.line } := by
  rw [openQuote]
  simp only []
  split
  · next chosen =>
      simp only [Bool.and_eq_true, Bool.not_eq_true', decide_eq_true_eq] at chosen
      exact absurd ⟨chosen.1.1, chosen.1.2, chosen.2⟩ notCandidate
  · rw [line_markCode]

theorem Sound.openQuote {quote : Nat} {literal : Quote} (sound : scan.Sound profile)
    (inCode : scan.mode = .code) (listed : profile.quotes[quote]? = some literal)
    (opens : literal.delimiter ≠ []) : (scan.openQuote profile quote).Sound profile := by
  by_cases candidate : scan.Candidate profile quote
  · rw [openQuote_of_candidate candidate]
    obtain ⟨mayBeDoc, notCode, undecided⟩ := candidate
    rw [listed, Option.any_some] at mayBeDoc
    obtain ⟨_, pastMarked⟩ := sound.lines
    constructor
    case valid => exact ⟨literal, listed, opens⟩
    case length_past => exact sound.length_past
    case regionLine_le => exact fun _ => Nat.le_refl _
    case opened =>
      intro first isOpened
      cases isOpened
      exact ⟨⟨quote, literal, rfl, listed, mayBeDoc⟩, rfl⟩
    case closed =>
      intro first isClosed
      contradiction
    case lines =>
      constructor
      · refine ⟨?_, fun _ => notCode⟩
        simp [Docstring.first?, sound.length_past]
      · apply pastMarked.imp
        intro n marks below marked
        rw [undecided, Docstring.marksLine_none_iff] at marked
        rw [sound.length_past] at below
        simp [Docstring.MarksLine, Docstring.first?, marked, below]
  · rw [openQuote_of_not_candidate candidate]
    have marked := sound.markCode inCode
    have docEq : scan.markCode.doc = .none := sound.doc_settle inCode true
    constructor
    case valid => exact ⟨literal, listed, opens⟩
    case length_past => exact marked.length_past
    case regionLine_le => exact fun _ => Nat.le_of_eq (line_markCode scan).symm
    case opened =>
      intro first isOpened
      exact absurd (docEq.symm.trans isOpened) (by simp)
    case closed =>
      intro first isClosed
      exact absurd (docEq.symm.trans isClosed) (by simp)
    case lines => exact marked.lines

/-! ## Lexemes and lines -/

/-- A lexeme that changes the marks of the current line by no more than a comment. -/
theorem Sound.congr {next : LineScan} (sound : scan.Sound profile)
    (valid : next.mode.Valid profile) (lineEq : next.line = scan.line)
    (pastEq : next.past = scan.past) (firstEq : next.doc.first? = scan.doc.first?)
    (docEq : next.current.doc = scan.current.doc)
    (codeEq : next.current.code = scan.current.code)
    (regionLine_le : next.mode ≠ .code → next.regionLine ≤ scan.line)
    (opened : ∀ {first}, next.doc = .opened first →
      next.mode.MayDocument profile ∧ next.regionLine = first)
    (closed : ∀ {first}, next.doc = .closed first → ∀ quote, next.mode ≠ .string quote) :
    next.Sound profile := by
  constructor
  case valid => exact valid
  case length_past =>
    rw [pastEq, lineEq]
    exact sound.length_past
  case regionLine_le =>
    rw [lineEq]
    exact regionLine_le
  case opened => exact opened
  case closed => exact closed
  case lines =>
    constructor
    · rw [pastEq]
      exact sound.lines.1.congr firstEq docEq codeEq
    · rw [pastEq]
      apply sound.lines.2.imp
      intro n marks _ marked
      exact marked.congr firstEq rfl rfl

theorem Sound.not_opened_of_mode_eq_block {pair depth : Nat} (sound : scan.Sound profile)
    (inside : scan.mode = .block pair depth) (first : Nat) : scan.doc ≠ .opened first := by
  intro isOpened
  obtain ⟨⟨quote, literal, inString, _⟩, _⟩ := sound.opened isOpened
  rw [inside] at inString
  contradiction

/-- Every lexeme that fits keeps the scanner sound. -/
theorem Sound.observe {lexeme : Lexeme} (sound : scan.Sound profile)
    (fits : lexeme.Fits profile scan.mode) : (scan.observe profile lexeme).Sound profile := by
  have valid := sound.valid.after fits
  rcases scan with ⟨mode, line, past, current, regionLine, doc⟩
  cases fits with
  | plain c =>
      simp only [LineScan.observe]
      split
      · exact sound
      · exact sound.markCode rfl
  | charLiteral => exact sound.markCode rfl
  | lineComment =>
      exact sound.congr valid rfl rfl rfl rfl rfl sound.regionLine_le sound.opened sound.closed
  | blockOpener listed ne =>
      refine sound.congr valid rfl rfl rfl rfl rfl (fun _ => Nat.le_refl _) ?_ ?_
      · intro first isOpened
        exact absurd isOpened (sound.not_opened_of_mode_eq_code rfl first)
      · intro first _ quote
        exact Mode.noConfusion
  | quoteOpener listed ne => exact sound.openQuote rfl listed ne
  | blockText => exact sound
  | nestedOpener depth listed nests =>
      refine sound.congr valid rfl rfl rfl rfl rfl ?_ ?_ ?_
      · exact fun _ => sound.regionLine_le Mode.noConfusion
      · intro first isOpened
        exact absurd isOpened (sound.not_opened_of_mode_eq_block rfl first)
      · intro first _ quote
        exact Mode.noConfusion
  | blockCloser pair depth =>
      refine sound.congr valid rfl rfl rfl rfl rfl ?_ ?_ ?_
      · exact fun _ => sound.regionLine_le Mode.noConfusion
      · intro first isOpened
        exact absurd isOpened (sound.not_opened_of_mode_eq_block rfl first)
      · intro first _ quote
        simp only [LineScan.observe, Mode.after]
        split <;> exact Mode.noConfusion
  | literalText => exact sound
  | quoteCloser quote =>
      refine sound.congr valid rfl rfl (Docstring.first?_close doc) rfl rfl ?_ ?_ ?_
      · exact fun notCode => absurd rfl notCode
      · intro first isOpened
        cases doc <;> simp [LineScan.observe, Docstring.close] at isOpened
      · intro first _ quote
        exact Mode.noConfusion

theorem Sound.run (sound : scan.Sound profile) (text : Text) :
    (scan.run profile text).Sound profile :=
  run_induction (fun fits _ sound => sound.observe fits) sound.valid sound text

/-- At the end of its line a literal that has been closed is settled. -/
theorem Sound.endLine (sound : scan.Sound profile) : scan.endLine.Sound profile := by
  have settled := sound.settle false
  rw [endLine_eq_settle]
  constructor
  case valid => exact settled.valid
  case length_marks => exact congrArg (· + 1) settled.length_past
  case regionLine_lt => exact fun notCode => Nat.lt_succ_of_le (settled.regionLine_le notCode)
  case opened => exact settled.opened
  case not_closed => exact settle_doc_ne_closed scan false
  case lines => exact settled.lines

end LineScan

namespace Scanner

variable {profile : Profile} {scanner : Scanner}

theorem sound_empty (profile : Profile) : ({} : Scanner).Sound profile := by
  constructor
  case valid => trivial
  case length_marks => rfl
  case regionLine_lt => exact fun notCode => absurd rfl notCode
  case opened =>
    intro first isOpened
    contradiction
  case not_closed =>
    intro first isClosed
    contradiction
  case lines => trivial

/-- In code nothing waits for a decision. -/
theorem Sound.doc_eq_none (sound : scanner.Sound profile)
    (notString : ∀ quote, scanner.mode ≠ .string quote) : scanner.doc = .none := by
  cases docEq : scanner.doc with
  | none => rfl
  | opened first =>
      obtain ⟨⟨quote, literal, inString, _⟩, _⟩ := sound.opened docEq
      exact absurd inString (notString quote)
  | closed first => exact absurd docEq (sound.not_closed first)

/-- Between two lines, what waits for a decision is still open. -/
theorem Sound.doc_eq_opened (sound : scanner.Sound profile) {first : Nat}
    (waiting : scanner.doc.first? = some first) : scanner.doc = .opened first :=
  Docstring.eq_opened_of_first?_eq_some sound.not_closed waiting

theorem Sound.beginLine (sound : scanner.Sound profile) (line : Text) :
    (scanner.beginLine line).Sound profile := by
  constructor
  case valid => exact sound.valid
  case length_past => exact sound.length_marks
  case regionLine_le => exact fun notCode => Nat.le_of_lt (sound.regionLine_lt notCode)
  case opened => exact sound.opened
  case closed =>
    intro first isClosed
    exact absurd isClosed (sound.not_closed first)
  case lines =>
    constructor
    · simp only [Scanner.beginLine, Scanner.firstMarks, sound.length_marks]
      split
      · next inCode =>
          rw [sound.doc_eq_none (by simp [inCode])]
          exact Docstring.marksLine_none_iff.mpr rfl
      · next inBlock =>
          rw [sound.doc_eq_none (by simp [inBlock])]
          exact Docstring.marksLine_none_iff.mpr rfl
      · next first inString isOpened =>
          have region := sound.regionLine_lt (by simp [inString])
          rw [(sound.opened isOpened).2] at region
          rw [isOpened]
          refine ⟨?_, fun _ => rfl⟩
          simp [Docstring.first?, Nat.le_of_lt region]
      · next notOpened =>
          have undecided : scanner.doc = .none := by
            cases docEq : scanner.doc with
            | none => rfl
            | opened first => exact absurd docEq (notOpened first)
            | closed first => exact absurd docEq (sound.not_closed first)
          rw [undecided]
          exact Docstring.marksLine_none_iff.mpr rfl
    · exact sound.lines

/-- Every line keeps the scanner sound. -/
theorem Sound.feedLine (sound : scanner.Sound profile) (line : Text) :
    (scanner.feedLine profile line).Sound profile := by
  rw [Scanner.feedLine]
  split
  · next columnOne =>
      constructor
      case valid => exact sound.valid
      case length_marks => exact congrArg (· + 1) sound.length_marks
      case regionLine_lt => exact fun notCode => absurd columnOne.1 notCode
      case opened => exact sound.opened
      case not_closed => exact sound.not_closed
      case lines =>
        constructor
        · rw [sound.doc_eq_none (by simp [columnOne.1]), Docstring.marksLine_none_iff]
          simp only [Scanner.firstMarks, columnOne.1]
        · exact sound.lines
  · exact ((sound.beginLine line).run line).endLine

theorem Sound.feedLines (sound : scanner.Sound profile) (lines : List Text) :
    (scanner.feedLines profile lines).Sound profile := by
  rw [Scanner.feedLines]
  induction lines generalizing scanner with
  | nil => exact sound
  | cons line rest inductionHypothesis => exact inductionHypothesis (sound.feedLine line)

/-- The scanner is sound after any lines. -/
theorem sound_feedLines (profile : Profile) (lines : List Text) :
    (Scanner.feedLines profile {} lines).Sound profile :=
  (sound_empty profile).feedLines lines

/-- A literal that still waits for a decision counts as a comment already. -/
theorem map_kind_finalMarks (scanner : Scanner) :
    scanner.finalMarks.map Marks.kind = scanner.marks.map Marks.kind := by
  rw [finalMarks]
  split
  · rfl
  · exact Marks.map_kind_resolveLatest_false _ _
  · exact Marks.map_kind_resolveLatest_false _ _

end Scanner

end LineTally
