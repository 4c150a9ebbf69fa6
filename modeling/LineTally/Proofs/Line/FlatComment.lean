import LineTally.Proofs.Line.Closing
import Mathlib.Data.Nat.Find

/-!
# Block comments that do not nest

A block comment that does not nest ends at its leftmost closer.  What stands before the closer
is lost on the scanner but for one note: whether the whole line is blank.  On a line that
begins inside a block comment nothing depends on that note (`Marks.kind_forgetBlank`), so two
lines that agree behind their leftmost closers can stand for each other in every file
(`flat_comment_ends_at_leftmost_closer`).
-/

namespace LineTally

/-! ## Lines that differ in being blank -/

namespace Marks

/-- The marks without the note that the line is blank, if it began inside a block comment. -/
def forgetBlank (marks : Marks) : Marks :=
  { marks with blank := marks.blank && !marks.carried }

@[simp]
theorem kind_forgetBlank (marks : Marks) : marks.forgetBlank.kind = marks.kind := by
  cases carried : marks.carried <;> simp [kind, forgetBlank, carried]

theorem forgetBlank_resolve (asCode : Bool) (marks : Marks) :
    (marks.resolve asCode).forgetBlank = marks.forgetBlank.resolve asCode := by
  cases doc : marks.doc <;> simp [resolve, forgetBlank, doc]

theorem map_forgetBlank_resolveLatest (asCode : Bool) (count : Nat) (latestFirst : List Marks) :
    (resolveLatest asCode count latestFirst).map forgetBlank =
      resolveLatest asCode count (latestFirst.map forgetBlank) := by
  simp only [resolveLatest, List.map_append, List.map_take, List.map_drop, List.map_map,
    Function.comp_def, forgetBlank_resolve]

end Marks

namespace LineScan

variable {profile : Profile} {scan other : LineScan}

/-- The scan without the notes that lines are blank, as far as these began inside block
comments. -/
def forgetBlank (scan : LineScan) : LineScan :=
  { scan with
    past := scan.past.map Marks.forgetBlank
    current := scan.current.forgetBlank }

theorem forgetBlank_settle (scan : LineScan) (asCode : Bool) :
    (scan.settle asCode).forgetBlank = scan.forgetBlank.settle asCode := by
  rcases scan.doc.eq_closed_or_ne with ⟨first, closed⟩ | notClosed
  · have closed' : scan.forgetBlank.doc = .closed first := closed
    rw [settle_of_closed closed, settle_of_closed closed']
    simp only [forgetBlank, resolveDoc, Marks.map_forgetBlank_resolveLatest,
      Marks.forgetBlank_resolve]
  · rw [settle_of_not_closed notClosed, settle_of_not_closed]
    exact notClosed

theorem forgetBlank_markCode (scan : LineScan) :
    scan.markCode.forgetBlank = scan.forgetBlank.markCode := by
  rw [markCode_eq_settle, markCode_eq_settle, ← forgetBlank_settle]
  rfl

theorem forgetBlank_openQuote (profile : Profile) (quote : Nat) (scan : LineScan) :
    (scan.openQuote profile quote).forgetBlank = scan.forgetBlank.openQuote profile quote := by
  by_cases candidate : scan.Candidate profile quote
  · have candidate' : scan.forgetBlank.Candidate profile quote := candidate
    rw [openQuote_of_candidate candidate, openQuote_of_candidate candidate']
    rfl
  · have notCandidate : ¬ scan.forgetBlank.Candidate profile quote := candidate
    rw [openQuote_of_not_candidate candidate, openQuote_of_not_candidate notCandidate,
      ← forgetBlank_markCode]
    rfl

theorem forgetBlank_observe (profile : Profile) (scan : LineScan) (lexeme : Lexeme) :
    (scan.observe profile lexeme).forgetBlank = scan.forgetBlank.observe profile lexeme := by
  cases lexeme with
  | plain c =>
      simp only [observe]
      split
      · rfl
      · exact forgetBlank_markCode scan
  | charLiteral => exact forgetBlank_markCode scan
  | quoteOpener quote => exact forgetBlank_openQuote profile quote scan
  | _ => rfl

theorem forgetBlank_run (valid : scan.mode.Valid profile) (text : Text) :
    (scan.run profile text).forgetBlank = scan.forgetBlank.run profile text := by
  have validToo : scan.forgetBlank.mode.Valid profile := valid
  rw [run_eq_foldl_observe valid, run_eq_foldl_observe validToo]
  have sameMode : scan.forgetBlank.mode = scan.mode := rfl
  rw [sameMode]
  generalize profile.lexemes scan.mode text = lexemes
  clear valid validToo sameMode
  induction lexemes generalizing scan with
  | nil => rfl
  | cons lexeme rest inductionHypothesis =>
      rw [List.foldl_cons, List.foldl_cons, inductionHypothesis, forgetBlank_observe]

end LineScan

/-- The scanners differ in no more than the notes that lines are blank, on lines that began
inside block comments. -/
structure Scanner.Alike (scanner other : Scanner) : Prop where
  mode : scanner.mode = other.mode
  line : scanner.line = other.line
  marks : scanner.marks.map Marks.forgetBlank = other.marks.map Marks.forgetBlank
  regionLine : scanner.regionLine = other.regionLine
  doc : scanner.doc = other.doc

theorem LineScan.alike_endLine {scan other : LineScan}
    (alike : scan.forgetBlank = other.forgetBlank) : scan.endLine.Alike other.endLine := by
  have settled : (scan.settle false).forgetBlank = (other.settle false).forgetBlank := by
    rw [forgetBlank_settle, alike, ← forgetBlank_settle]
  simp only [forgetBlank, LineScan.mk.injEq] at settled
  obtain ⟨mode, line, past, current, regionLine, doc⟩ := settled
  rw [endLine_eq_settle, endLine_eq_settle]
  constructor
  case mode => exact mode
  case line => exact congrArg (· + 1) line
  case marks => exact congrArg₂ List.cons current past
  case regionLine => exact regionLine
  case doc => exact doc

namespace Scanner.Alike

variable {profile : Profile} {scanner other : Scanner}

theorem beginLine (alike : scanner.Alike other) (line : Text) :
    (scanner.beginLine line).forgetBlank = (other.beginLine line).forgetBlank := by
  simp only [LineScan.forgetBlank, Scanner.beginLine, firstMarks, alike.mode, alike.line,
    alike.marks, alike.regionLine, alike.doc]

theorem feedLine (alike : scanner.Alike other) (valid : scanner.mode.Valid profile)
    (line : Text) : (scanner.feedLine profile line).Alike (other.feedLine profile line) := by
  have begunValid : (scanner.beginLine line).mode.Valid profile := valid
  have otherValid : (other.beginLine line).mode.Valid profile := by
    rw [show (other.beginLine line).mode = scanner.mode from alike.mode.symm]
    exact valid
  have begun := alike.beginLine line
  unfold Scanner.feedLine
  rw [← alike.mode]
  split
  · next columnOne =>
      have noted : scanner.firstMarks line = other.firstMarks line := by
        rw [Scanner.firstMarks, Scanner.firstMarks, ← alike.mode, columnOne.1]
      constructor
      case mode => rfl
      case line => exact congrArg (· + 1) alike.line
      case marks => simp only [List.map_cons, alike.marks, noted]
      case regionLine => exact alike.regionLine
      case doc => exact alike.doc
  · apply LineScan.alike_endLine
    rw [LineScan.forgetBlank_run begunValid, LineScan.forgetBlank_run otherValid, begun]

theorem feedLines (alike : scanner.Alike other) (sound : scanner.Sound profile)
    (lines : List Text) :
    (scanner.feedLines profile lines).Alike (other.feedLines profile lines) := by
  unfold Scanner.feedLines
  induction lines generalizing scanner other with
  | nil => exact alike
  | cons line rest inductionHypothesis =>
      exact inductionHypothesis (alike.feedLine sound.valid line) (sound.feedLine line)

/-- What is forgotten makes no difference to the kinds of lines. -/
theorem map_kind_marks (alike : scanner.Alike other) :
    scanner.marks.map Marks.kind = other.marks.map Marks.kind := by
  have kinds := congrArg (List.map Marks.kind) alike.marks
  simpa only [List.map_map, Function.comp_def, Marks.kind_forgetBlank] using kinds

theorem finish_eq (alike : scanner.Alike other) :
    scanner.finish profile = other.finish profile := by
  simp only [finish, map_kind_finalMarks, alike.map_kind_marks, anomaly?, alike.mode,
    alike.regionLine]

end Scanner.Alike

/-! ## The leftmost closer -/

/-- The delimiter stands at position `i` of the text and nowhere before it. -/
def Text.LeftmostAt (delimiter text : Text) (i : Nat) : Prop :=
  delimiter <+: text.drop i ∧ ∀ j < i, ¬ delimiter <+: text.drop j

instance (delimiter text : Text) (i : Nat) : Decidable (Text.LeftmostAt delimiter text i) :=
  inferInstanceAs (Decidable (_ ∧ _))

/-- Without escapes a delimiter counts wherever it stands. -/
theorem Text.unescapedAt_none_iff {delimiter text : Text} {i : Nat} :
    UnescapedAt delimiter none text i ↔ delimiter <+: text.drop i := by
  have noEscapes : escapesAtEnd none (text.take i) = 0 := by
    simp [escapesAtEnd]
  rw [UnescapedAt, noEscapes]
  exact and_iff_left Even.zero

theorem Text.not_prefix_drop_of_not_infix {delimiter text : Text}
    (absent : ¬ delimiter <:+: text) (i : Nat) : ¬ delimiter <+: text.drop i :=
  fun stands => absent (stands.isInfix.trans (List.drop_suffix i text).isInfix)

/-- What occurs in a text has a leftmost occurrence. -/
theorem Text.exists_leftmostAt {delimiter text : Text} (occurs : delimiter <:+: text) :
    ∃ i, LeftmostAt delimiter text i := by
  have somewhere : ∃ i, delimiter <+: text.drop i := by
    obtain ⟨before, behind, rfl⟩ := occurs
    exact ⟨before.length, by simp⟩
  exact ⟨Nat.find somewhere, Nat.find_spec somewhere,
    fun _ earlier => Nat.find_min somewhere earlier⟩

/-- The lines agree behind the leftmost closers on them, or there is no closer on either. -/
def Text.AgreeBehind (closer first second : Text) : Prop :=
  (∃ i j, LeftmostAt closer first i ∧ LeftmostAt closer second j ∧
    first.drop (i + closer.length) = second.drop (j + closer.length)) ∨
  (¬ closer <:+: first ∧ ¬ closer <:+: second)

namespace LineScan

variable {profile : Profile} {scan : LineScan} {pair : Nat} {delimiters : BlockComment}

/-- A block comment that does not nest is read up to its closer, and nothing else in it
counts. -/
theorem encloses_flatBlock (listed : profile.blockComments[pair]? = some delimiters)
    (flat : delimiters.nestable = false) (nonempty : delimiters.closer ≠ [])
    (inside : scan.mode = .block pair 1) :
    scan.Encloses profile { scan with mode := .code } delimiters.closer none := by
  have opens : delimiters.nestable = true → delimiters.opener ≠ [] := by simp [flat]
  constructor
  case escapes =>
    intro c cs isEscape
    contradiction
  case closes =>
    intro c cs _ closes
    have step := Place.next_block inside listed opens (List.cons_ne_nil c cs)
    rw [if_pos closes] at step
    simp only [inside, Mode.after] at step
    exact step
  case passes =>
    intro c cs _ notClosed
    have step := Place.next_block inside listed opens (List.cons_ne_nil c cs)
    rwa [if_neg notClosed, if_neg (by simp [flat])] at step
  case nonempty => exact nonempty
  case distinct =>
    intro c isEscape
    contradiction

/-- A comment that does not nest ends at its leftmost closer. -/
theorem leavesAt_leftmost (listed : profile.blockComments[pair]? = some delimiters)
    (flat : delimiters.nestable = false) (nonempty : delimiters.closer ≠ [])
    (inside : scan.mode = .block pair 1) {text : Text} {i : Nat}
    (leftmost : Text.LeftmostAt delimiters.closer text i) :
    scan.LeavesAt profile { scan with mode := .code } text i delimiters.closer.length := by
  apply (encloses_flatBlock listed flat nonempty inside).leavesAt
  · exact Text.unescapedAt_none_iff.mpr leftmost.1
  · exact fun j earlier unescaped => leftmost.2 j earlier (Text.unescapedAt_none_iff.mp unescaped)

/-- Where no closer occurs it goes on. -/
theorem keeps_of_not_infix (listed : profile.blockComments[pair]? = some delimiters)
    (flat : delimiters.nestable = false) (nonempty : delimiters.closer ≠ [])
    (inside : scan.mode = .block pair 1) {text : Text}
    (absent : ¬ delimiters.closer <:+: text) : scan.Keeps profile text := by
  apply (encloses_flatBlock listed flat nonempty inside).keeps
  intro i unescaped
  exact Text.not_prefix_drop_of_not_infix absent i (Text.unescapedAt_none_iff.mp unescaped)

end LineScan

namespace Scanner

variable {profile : Profile} {scanner : Scanner} {pair : Nat} {delimiters : BlockComment}
  {first second : Text}

/-- Lines that begin inside a block comment differ in no more than in being blank. -/
theorem forgetBlank_beginLine (inside : scanner.mode = .block pair 1) (first second : Text) :
    (scanner.beginLine first).forgetBlank = (scanner.beginLine second).forgetBlank := by
  simp [LineScan.forgetBlank, beginLine, firstMarks, inside, Marks.forgetBlank]

/-- Lines that agree behind their leftmost closers can stand for each other. -/
theorem alike_feedLine (listed : profile.blockComments[pair]? = some delimiters)
    (flat : delimiters.nestable = false) (nonempty : delimiters.closer ≠ [])
    (inside : scanner.mode = .block pair 1)
    (agree : Text.AgreeBehind delimiters.closer first second) :
    (scanner.feedLine profile first).Alike (scanner.feedLine profile second) := by
  have inRegion : scanner.mode ≠ .code := by simp [inside]
  have begun := forgetBlank_beginLine inside first second
  have begunInside (line : Text) : (scanner.beginLine line).mode = .block pair 1 := inside
  rw [feedLine_of_mode_ne_code inRegion, feedLine_of_mode_ne_code inRegion]
  apply LineScan.alike_endLine
  rcases agree with ⟨i, j, leftmost, leftmost', same⟩ | ⟨absent, absent'⟩
  · have leaves := LineScan.leavesAt_leftmost listed flat nonempty (begunInside first) leftmost
    have leaves' := LineScan.leavesAt_leftmost listed flat nonempty (begunInside second) leftmost'
    -- Code is a valid mode whatever the profile, unlike that of a pair with an empty opener.
    have inCode (line : Text) :
        ({ scanner.beginLine line with mode := .code } : LineScan).mode.Valid profile := trivial
    rw [leaves.run_eq, leaves'.run_eq, LineScan.forgetBlank_run (inCode first),
      LineScan.forgetBlank_run (inCode second), same]
    exact congrArg (fun scan : LineScan =>
      LineScan.run profile { scan with mode := .code } (second.drop (j + _))) begun
  · have keeps := LineScan.keeps_of_not_infix listed flat nonempty (begunInside first) absent
    have keeps' := LineScan.keeps_of_not_infix listed flat nonempty (begunInside second) absent'
    rw [keeps.run_eq, keeps'.run_eq]
    exact begun

end Scanner

/-- A block comment that does not nest ends at its leftmost closer: up to there the scanner
takes note of nothing, and it goes on in code behind the closer.  Where no closer occurs the
comment goes on to the next line.  So lines that agree behind their leftmost closers, or that
both have none, lead to the same state, and either can stand for the other in a file. -/
theorem flat_comment_ends_at_leftmost_closer {profile : Profile} {pair : Nat}
    {delimiters : BlockComment} (listed : profile.blockComments[pair]? = some delimiters)
    (flat : delimiters.nestable = false) (nonempty : delimiters.closer ≠ []) :
    (∀ (scan : LineScan) (rest : Text), scan.mode = .block pair 1 →
      (delimiters.closer <:+: rest → ∃ i, Text.LeftmostAt delimiters.closer rest i ∧
        scan.LeavesAt profile { scan with mode := .code } rest i delimiters.closer.length) ∧
      (¬ delimiters.closer <:+: rest → scan.Keeps profile rest)) ∧
    ∀ (scanner : Scanner) (first second : Text), scanner.mode = .block pair 1 →
      Text.AgreeBehind delimiters.closer first second →
        let behindFirst := scanner.feedLine profile first
        let behindSecond := scanner.feedLine profile second
        behindFirst.mode = behindSecond.mode ∧ behindFirst.doc = behindSecond.doc ∧
        behindFirst.regionLine = behindSecond.regionLine ∧
        behindFirst.marks.map Marks.kind = behindSecond.marks.map Marks.kind ∧
        ∀ before after, Scanner.feedLines profile {} before = scanner →
          classify profile (before ++ first :: after) =
            classify profile (before ++ second :: after) := by
  constructor
  · intro scan rest inside
    constructor
    · intro occurs
      obtain ⟨i, leftmost⟩ := Text.exists_leftmostAt occurs
      exact ⟨i, leftmost, LineScan.leavesAt_leftmost listed flat nonempty inside leftmost⟩
    · exact LineScan.keeps_of_not_infix listed flat nonempty inside
  · intro scanner first second inside agree behindFirst behindSecond
    have alike := Scanner.alike_feedLine listed flat nonempty inside agree
    refine ⟨alike.mode, alike.doc, alike.regionLine, alike.map_kind_marks, ?_⟩
    rintro before after rfl
    have sound := (Scanner.sound_feedLines profile before).feedLine first
    simp only [classify, Scanner.feedLines_append]
    exact (alike.feedLines sound after).finish_eq

/-- A comment full of openers, quotes and escapes ends at the same place as one that is closed
at once, and a lone quote in it counts for no more than an empty line. -/
theorem flat_comment_ends_behind_quotes :
    let delimiters := Delimiters.block "/*" "*/"
    let profile : Profile :=
      { name := "C", lineComments := Delimiters.slashes, blockComments := Delimiters.slashStar,
        quotes := Delimiters.doubleSingle }
    let scanner := Scanner.feedLines profile {} ["x /*".toList]
    let first := "// \"é\\ /* **/ 'y".toList
    let second := "*/ 'y".toList
    profile.blockComments[0]? = some delimiters ∧ delimiters.nestable = false ∧
      delimiters.closer ≠ [] ∧ scanner.mode = .block 0 1 ∧
      Text.AgreeBehind delimiters.closer first second ∧
      Text.AgreeBehind delimiters.closer "'".toList [] ∧
      (∃ i, Text.LeftmostAt delimiters.closer first i ∧
        (scanner.beginLine first).LeavesAt profile
          { scanner.beginLine first with mode := .code } first i 2) ∧
      (scanner.beginLine "'".toList).Keeps profile "'".toList ∧
      (scanner.feedLine profile first).mode = .string 1 ∧
      (scanner.feedLine profile first).mode = (scanner.feedLine profile second).mode ∧
      classify profile ["x /*".toList, "'".toList, "*/".toList] =
        classify profile ["x /*".toList, [], "*/".toList] := by
  intro delimiters profile scanner first second
  have listed : profile.blockComments[0]? = some delimiters := rfl
  have flat : delimiters.nestable = false := rfl
  have nonempty : delimiters.closer ≠ [] := by decide
  have inside : scanner.mode = .block 0 1 := by decide +kernel
  have agree : Text.AgreeBehind delimiters.closer first second :=
    .inl ⟨11, 0, by decide +kernel, by decide +kernel, by decide +kernel⟩
  have occurs : delimiters.closer <:+: first := by decide +kernel
  have absent : ¬ delimiters.closer <:+: "'".toList := by decide +kernel
  have agree' : Text.AgreeBehind delimiters.closer "'".toList [] :=
    .inr ⟨absent, by decide +kernel⟩
  obtain ⟨onLine, onLines⟩ := flat_comment_ends_at_leftmost_closer listed flat nonempty
  exact ⟨listed, flat, nonempty, inside, agree, agree',
    (onLine (scanner.beginLine first) first inside).1 occurs,
    (onLine (scanner.beginLine "'".toList) _ inside).2 absent, by decide +kernel,
    (onLines scanner first second inside agree).1,
    (onLines scanner _ _ inside agree').2.2.2.2 ["x /*".toList] ["*/".toList] rfl⟩

end LineTally
