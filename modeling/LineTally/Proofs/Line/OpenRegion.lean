import LineTally.Proofs.Line.Region
import LineTally.Proofs.Line.Splitting
import Mathlib.Data.List.Induction

/-!
# The region that is never closed

If a file ends inside a region, the anomaly of its classification names that region:
its kind, its opener, and the line where the scanner left code for the last time.  From
that opener to the end of the file the scanner is in the region
(`anomaly_names_open_region`), and the lines that are wholly inside it are of one kind.
-/

namespace LineTally

/-! ## The marks of the lines in an open region -/

/-- The marks of a line of an open region.  Where a literal waits for a decision nothing is
said. -/
def Mode.MarksOpen (mode : Mode) (doc : Docstring) (regionLine n : Nat) (marks : Marks) : Prop :=
  match mode, doc with
  | .block .., _ => regionLine < n → marks.carried = true ∧ marks.code = false
  | .string _, .none => regionLine ≤ n → marks.code = true
  | _, _ => True

namespace LineScan

variable {profile : Profile} {scan : LineScan}

/-- The lines from the opener of the region on have the marks of an open region. -/
def MarksOpen (scan : LineScan) : Prop :=
  Marks.EachLine (scan.mode.MarksOpen scan.doc scan.regionLine) (scan.current :: scan.past)

theorem marksOpen_of_mode_eq_code (inCode : scan.mode = .code) : scan.MarksOpen := by
  apply Marks.eachLine_of_lt
  intro n _ marks
  rw [inCode]
  trivial

/-- A literal that opens marks its line as code or waits for a decision. -/
theorem marksOpen_openQuote (quote : Nat) (sound : scan.Sound profile)
    (inCode : scan.mode = .code) : (scan.openQuote profile quote).MarksOpen := by
  by_cases candidate : scan.Candidate profile quote
  · rw [openQuote_of_candidate candidate]
    exact Marks.eachLine_of_lt fun _ _ _ => trivial
  · have docEq : scan.markCode.doc = .none := sound.doc_settle inCode true
    have length : scan.markCode.past.length = scan.line :=
      (length_past_markCode scan).trans sound.length_past
    rw [openQuote_of_not_candidate candidate]
    refine ⟨?_, Marks.eachLine_of_lt fun n below marks => ?_⟩
    · rw [docEq]
      exact fun _ => rfl
    · rw [docEq]
      intro reached
      rw [length] at below
      exact absurd below (Nat.not_lt.mpr reached)

theorem MarksOpen.observe {lexeme : Lexeme} (marksOpen : scan.MarksOpen)
    (sound : scan.Sound profile) (fits : lexeme.Fits profile scan.mode) :
    (scan.observe profile lexeme).MarksOpen := by
  have leads := mode_observe fits
  have length := sound.length_past
  rcases scan with ⟨mode, line, past, current, regionLine, doc⟩
  cases fits with
  | plain => exact marksOpen_of_mode_eq_code leads
  | charLiteral => exact marksOpen_of_mode_eq_code leads
  | lineComment => exact marksOpen_of_mode_eq_code leads
  | blockOpener =>
      apply Marks.eachLine_of_lt
      intro n below marks reached
      have within : n ≤ line := Nat.le_trans (Nat.le_of_lt_succ below) (Nat.le_of_eq length)
      exact absurd reached (Nat.not_lt.mpr within)
  | quoteOpener => exact marksOpen_openQuote _ sound rfl
  | blockText => exact marksOpen
  | nestedOpener => exact marksOpen
  | blockCloser pair depth =>
      by_cases last : depth ≤ 1
      · exact marksOpen_of_mode_eq_code (leads.trans (if_pos last))
      · rw [MarksOpen, leads, show (Mode.block pair depth).after .blockCloser = _ from if_neg last]
        exact marksOpen
  | literalText => exact marksOpen
  | quoteCloser => exact marksOpen_of_mode_eq_code rfl

theorem MarksOpen.run (marksOpen : scan.MarksOpen) (sound : scan.Sound profile) (text : Text) :
    (scan.run profile text).MarksOpen :=
  (run_induction (motive := fun scan => scan.Sound profile ∧ scan.MarksOpen)
    (fun fits _ holds => ⟨holds.1.observe fits, holds.2.observe holds.1 fits⟩) sound.valid
    ⟨sound, marksOpen⟩ text).2

end LineScan

/-- The lines from the opener of the region on have the marks of an open region. -/
def Scanner.MarksOpen (scanner : Scanner) : Prop :=
  Marks.EachLine (scanner.mode.MarksOpen scanner.doc scanner.regionLine) scanner.marks

/-- To settle documentation before a block comment does not touch the marks of the comment. -/
theorem LineScan.MarksOpen.endLine {profile : Profile} {scan : LineScan}
    (marksOpen : scan.MarksOpen) (sound : scan.Sound profile) : scan.endLine.MarksOpen := by
  rw [endLine_eq_settle]
  simp only [Scanner.MarksOpen, leave, mode_settle, regionLine_settle]
  refine eachLine_settle (sound.lines.and marksOpen) sound.length_past (fun _ _ both => both.1)
    ?_ ?_
  · intro notClosed n marks _ both
    rw [settle_of_not_closed notClosed]
    exact both.2
  · intro first closed n marks _ both
    cases inside : scan.mode with
    | code => trivial
    | string quote => exact absurd inside (sound.closed closed quote)
    | block pair depth =>
        have held := both.2
        rw [inside] at held
        intro reached
        obtain ⟨carried, notCode⟩ := held reached
        cases docMark : marks.doc <;> simp [Marks.resolve, docMark, carried, notCode]

namespace Scanner

variable {profile : Profile} {scanner : Scanner}

theorem marksOpen_of_mode_eq_code (inCode : scanner.mode = .code) : scanner.MarksOpen := by
  apply Marks.eachLine_of_lt
  intro n _ marks
  rw [inCode]
  trivial

theorem MarksOpen.beginLine (marksOpen : scanner.MarksOpen) (line : Text) :
    (scanner.beginLine line).MarksOpen := by
  refine ⟨?_, marksOpen⟩
  simp only [Scanner.beginLine, Scanner.firstMarks]
  cases scanner.mode with
  | code => trivial
  | block pair depth => exact fun _ => ⟨rfl, rfl⟩
  | string quote =>
      cases scanner.doc with
      | none => exact fun _ => rfl
      | opened first => trivial
      | closed first => trivial

theorem MarksOpen.feedLine (marksOpen : scanner.MarksOpen) (sound : scanner.Sound profile)
    (line : Text) : (scanner.feedLine profile line).MarksOpen := by
  rw [Scanner.feedLine]
  split
  · next columnOne => exact marksOpen_of_mode_eq_code columnOne.1
  · exact ((marksOpen.beginLine line).run (sound.beginLine line) line).endLine
      ((sound.beginLine line).run line)

theorem marksOpen_feedLines (profile : Profile) (lines : List Text) :
    (feedLines profile {} lines).MarksOpen := by
  induction lines using List.reverseRecOn with
  | nil => exact marksOpen_of_mode_eq_code rfl
  | append_singleton lines last inductionHypothesis =>
      rw [feedLines_append]
      exact inductionHypothesis.feedLine (sound_feedLines profile lines) last

end Scanner

/-! ## The last opener -/

namespace Scanner

variable {profile : Profile} {scanner : Scanner}

/-- If the scanner is in a region behind a line, it is in it all over the line, or it has
entered it there. -/
theorem stays_or_opens {region : Region} (sound : scanner.Sound profile) (line : Text)
    (ended : (scanner.feedLine profile line).mode.region? = some region) :
    (scanner.mode.region? = some region ∧
        (∀ place, scanner.Visits profile line place → place.scan.mode.region? = some region) ∧
        (scanner.feedLine profile line).regionLine = scanner.regionLine) ∨
      ((∃ opener place, region.opener? profile = some opener ∧
          scanner.Visits profile line place ∧ place.OpensLast profile region opener) ∧
        (scanner.feedLine profile line).regionLine = scanner.line) := by
  by_cases columnOne : scanner.mode = .code ∧ profile.startsWithColumnOneComment line = true
  · rw [feedLine, if_pos columnOne] at ended
    exact absurd columnOne.1 (Mode.ne_code_of_region?_eq_some ended)
  · have fedEq : scanner.feedLine profile line =
        (((scanner.beginLine line).run profile line).settle false).leave := if_neg columnOne
    rw [fedEq] at ended ⊢
    simp only [LineScan.leave, LineScan.mode_settle, LineScan.regionLine_settle] at ended ⊢
    rcases LineScan.stays_or_opens (sound.beginLine line).valid line ended with
      ⟨stays, regionLine⟩ | ⟨⟨opener, place, listed, reached, opens⟩, regionLine⟩
    · exact .inl ⟨stays _ .refl, fun place visits => stays place visits.2, regionLine⟩
    · exact .inr ⟨⟨opener, place, listed, ⟨columnOne, reached⟩, opens⟩, regionLine⟩

/-- The region that is open is reported with the line that the scanner keeps of it. -/
theorem anomaly?_eq_some {region : Region} {opener : Text}
    (inside : scanner.mode.region? = some region)
    (listed : region.opener? profile = some opener) :
    scanner.anomaly? profile = some ⟨region.kind, scanner.regionLine + 1, opener⟩ := by
  rw [anomaly?]
  cases mode : scanner.mode with
  | code =>
      rw [mode] at inside
      contradiction
  | block pair depth =>
      rw [mode] at inside
      cases inside
      obtain ⟨delimiters, found, rfl⟩ := Option.map_eq_some_iff.mp listed
      simp only [found, Option.map_some, Region.kind]
  | string quote =>
      rw [mode] at inside
      cases inside
      obtain ⟨literal, found, rfl⟩ := Option.map_eq_some_iff.mp listed
      simp only [found, Option.map_some, Region.kind]

theorem anomaly?_eq_none_iff (sound : scanner.Sound profile) :
    scanner.anomaly? profile = none ↔ scanner.mode = .code := by
  constructor
  · intro nothing
    rw [← Mode.region?_eq_none_iff]
    cases inside : scanner.mode.region? with
    | none => rfl
    | some region =>
        obtain ⟨opener, listed, _⟩ := sound.valid.exists_opener inside
        rw [anomaly?_eq_some inside listed] at nothing
        contradiction
  · intro inCode
    rw [anomaly?, inCode]

end Scanner

namespace Profile

/-- On line `n`, counted from zero, the scanner enters the region from code, and it is in it
from there to the end of the lines. -/
structure OpenSince (profile : Profile) (lines : List Text) (region : Region) (opener : Text)
    (n : Nat) : Prop where
  opens : ∃ place, profile.VisitsOn lines n place ∧ place.OpensLast profile region opener
  between : ∀ later, n < later →
    (Scanner.feedLines profile {} (lines.take later)).mode.region? = some region
  within : ∀ later, n < later → ∀ place, profile.VisitsOn lines later place →
    place.scan.mode.region? = some region

variable {profile : Profile} {lines : List Text} {region : Region} {opener : Text} {n : Nat}

theorem VisitsOn.lt_length {place : Place} (visits : profile.VisitsOn lines n place) :
    n < lines.length := by
  obtain ⟨line, found, _⟩ := visits
  exact (List.getElem?_eq_some_iff.mp found).1

theorem OpenSince.lt_length (openSince : profile.OpenSince lines region opener n) :
    n < lines.length := by
  obtain ⟨place, visits, _⟩ := openSince.opens
  exact visits.lt_length

/-- A line that the scanner does not leave the region on. -/
theorem OpenSince.append {last : Text} (openSince : profile.OpenSince lines region opener n)
    (visits : ∀ place, (Scanner.feedLines profile {} lines).Visits profile last place →
      place.scan.mode.region? = some region)
    (ended : (Scanner.feedLines profile {} (lines ++ [last])).mode.region? = some region) :
    profile.OpenSince (lines ++ [last]) region opener n := by
  have below := openSince.lt_length
  obtain ⟨⟨place, opening, opensLast⟩, between, within⟩ := openSince
  constructor
  case opens => exact ⟨place, (visitsOn_append_of_lt below).mpr opening, opensLast⟩
  case between =>
    intro later behind
    by_cases old : later ≤ lines.length
    · rw [List.take_append_of_le_length old]
      exact between later behind
    · have whole : (lines ++ [last]).length ≤ later := by
        rw [List.length_append, List.length_singleton]
        exact Nat.lt_of_not_le old
      rwa [List.take_of_length_le whole]
  case within =>
    intro later behind place' visits'
    have bound := visits'.lt_length
    rw [List.length_append, List.length_singleton] at bound
    rcases Nat.lt_succ_iff_lt_or_eq.mp bound with old | rfl
    · exact within later behind place' ((visitsOn_append_of_lt old).mp visits')
    · exact visits place' (visitsOn_append_length.mp visits')

/-- A line that the scanner enters the region on. -/
theorem openSince_of_last {last : Text} {place : Place}
    (visits : (Scanner.feedLines profile {} lines).Visits profile last place)
    (opensLast : place.OpensLast profile region opener)
    (ended : (Scanner.feedLines profile {} (lines ++ [last])).mode.region? = some region) :
    profile.OpenSince (lines ++ [last]) region opener lines.length := by
  constructor
  case opens => exact ⟨place, visitsOn_append_length.mpr visits, opensLast⟩
  case between =>
    intro later behind
    have whole : (lines ++ [last]).length ≤ later := by
      rw [List.length_append, List.length_singleton]
      exact behind
    rwa [List.take_of_length_le whole]
  case within =>
    intro later behind place' visits'
    have bound := visits'.lt_length
    rw [List.length_append, List.length_singleton] at bound
    exact absurd behind (Nat.not_lt.mpr (Nat.le_of_lt_succ bound))

/-- A region that is open has been so since the line that the scanner keeps of it. -/
theorem openSince_regionLine (profile : Profile) (lines : List Text) {region : Region}
    (ended : (Scanner.feedLines profile {} lines).mode.region? = some region) :
    ∃ opener, region.opener? profile = some opener ∧ profile.OpenSince lines region opener
      (Scanner.feedLines profile {} lines).regionLine := by
  induction lines using List.reverseRecOn with
  | nil => contradiction
  | append_singleton lines last inductionHypothesis =>
      have sound := Scanner.sound_feedLines profile lines
      have fedEq : Scanner.feedLines profile {} (lines ++ [last]) =
          (Scanner.feedLines profile {} lines).feedLine profile last :=
        Scanner.feedLines_append profile {} lines [last]
      have fed := ended
      rw [fedEq] at fed
      rcases Scanner.stays_or_opens sound last fed with
        ⟨inside, visits, regionLine⟩ | ⟨⟨opener, place, listed, visits, opensLast⟩, regionLine⟩
      · obtain ⟨opener, listed, openSince⟩ := inductionHypothesis inside
        refine ⟨opener, listed, ?_⟩
        rw [fedEq, regionLine]
        exact openSince.append visits ended
      · refine ⟨opener, listed, ?_⟩
        rw [fedEq, regionLine, Scanner.line_feedLines, Nat.zero_add]
        exact openSince_of_last visits opensLast ended

end Profile

/-! ## The kinds of the lines -/

/-- The kinds of all lines, `n` being the line of the opener: a block comment makes the lines
behind it comments; a string literal makes its lines code, or all of them comments if it may
be documentation. -/
def Region.DeterminesKinds (profile : Profile) (n : Nat) (kinds : List LineKind) :
    Region → Prop
  | .block _ => ∀ later, n < later → later < kinds.length → kinds[later]? = some .comment
  | .string quote => ∃ literal, profile.quotes[quote]? = some literal ∧
      (literal.doc = false →
        ∀ later, n ≤ later → later < kinds.length → kinds[later]? = some .code) ∧
      (literal.doc = true → ∃ kind, (kind = .comment ∨ kind = .code) ∧
        ∀ later, n ≤ later → later < kinds.length → kinds[later]? = some kind)

theorem Marks.kind_of_carried {marks : Marks} (carried : marks.carried = true)
    (notCode : marks.code = false) : marks.kind = .comment := by
  simp [kind, carried, notCode]

theorem Marks.kind_of_code {marks : Marks} (isCode : marks.code = true) :
    marks.kind = .code := by
  simp [kind, isCode]

/-- While a literal waits for a decision its lines count as comments. -/
theorem Docstring.MarksLine.kind_eq_comment {first n : Nat} {marks : Marks}
    (marked : (Docstring.opened first).MarksLine n marks) (reached : first ≤ n) :
    marks.kind = .comment := by
  have docMark : marks.doc = true := marked.1.mpr ⟨first, rfl, reached⟩
  simp [Marks.kind, docMark, marked.2 docMark]

/-- What holds of the marks of a line, in a statement about its kind. -/
theorem exists_marks_of_lt (profile : Profile) (lines : List Text) {holds : Nat → Marks → Prop}
    (each : Marks.EachLine holds (Scanner.feedLines profile {} lines).marks) {n : Nat}
    (below : n < (classify profile lines).tags.length) :
    ∃ marks, (classify profile lines).tags[n]? = some marks.kind ∧ holds n marks := by
  have length : (Scanner.feedLines profile {} lines).marks.length = lines.length :=
    (Scanner.length_marks_feedLines profile {} lines).trans (Nat.zero_add _)
  rw [length_tags_classify, ← length] at below
  obtain ⟨marks, found, held⟩ := each.getElem?_reverse below
  have tagsEq : (classify profile lines).tags =
      (Scanner.feedLines profile {} lines).marks.reverse.map Marks.kind := by
    rw [List.map_reverse, ← Scanner.map_kind_finalMarks]
    rfl
  refine ⟨marks, ?_, held⟩
  rw [tagsEq, List.getElem?_map, found, Option.map_some]

/-- The lines of the region that is open at the end are of the kinds that it determines. -/
theorem determinesKinds_of_open (profile : Profile) (lines : List Text) {region : Region}
    (ended : (Scanner.feedLines profile {} lines).mode.region? = some region) :
    region.DeterminesKinds profile (Scanner.feedLines profile {} lines).regionLine
      (classify profile lines).tags := by
  have sound := Scanner.sound_feedLines profile lines
  have marksOpen : (Scanner.feedLines profile {} lines).MarksOpen :=
    Scanner.marksOpen_feedLines profile lines
  have each := marksOpen.and sound.lines
  cases mode : (Scanner.feedLines profile {} lines).mode with
  | code =>
      rw [mode] at ended
      contradiction
  | block pair depth =>
      rw [mode] at ended each
      cases ended
      intro later behind below
      obtain ⟨marks, tagged, isOpen, _⟩ := exists_marks_of_lt profile lines each below
      obtain ⟨carried, notCode⟩ := isOpen behind
      rw [tagged, Marks.kind_of_carried carried notCode]
  | string quote =>
      obtain ⟨literal, listed, _⟩ : (Mode.string quote).Valid profile := mode ▸ sound.valid
      rw [mode] at ended each
      cases ended
      cases docEq : (Scanner.feedLines profile {} lines).doc with
      -- The literal could not be documentation when it opened, whatever its quotes allow.
      | none =>
          rw [docEq] at each
          have allCode : ∀ later, (Scanner.feedLines profile {} lines).regionLine ≤ later →
              later < (classify profile lines).tags.length →
              (classify profile lines).tags[later]? = some .code := by
            intro later reached below
            obtain ⟨marks, tagged, isOpen, _⟩ := exists_marks_of_lt profile lines each below
            rw [tagged, Marks.kind_of_code (isOpen reached)]
          exact ⟨literal, listed, fun _ => allCode, fun _ => ⟨.code, .inr rfl, allCode⟩⟩
      | opened first =>
          obtain ⟨⟨quote', literal', inString, listed', mayDocument⟩, rfl⟩ := sound.opened docEq
          rw [mode] at inString
          cases inString
          cases listed.symm.trans listed'
          rw [docEq] at each
          refine ⟨literal, listed, fun notDoc => ?_, fun _ => ⟨.comment, .inl rfl, ?_⟩⟩
          · rw [mayDocument] at notDoc
            contradiction
          · intro later reached below
            obtain ⟨marks, tagged, _, marked⟩ := exists_marks_of_lt profile lines each below
            rw [tagged, marked.kind_eq_comment reached]
      | closed first => exact absurd docEq (sound.not_closed first)

/-- A classification has no anomaly just if the file ends in code.  Otherwise the anomaly names
the region that is open at the end and the line, counted from one, where the scanner entered
it and has been in it since; and the kinds of the lines inside are those that the region
determines. -/
theorem anomaly_names_open_region (profile : Profile) (lines : List Text) :
    ((classify profile lines).anomaly = none ↔
        (Scanner.feedLines profile {} lines).mode = .code) ∧
      ∀ region, (Scanner.feedLines profile {} lines).mode.region? = some region →
        ∃ opener n, region.opener? profile = some opener ∧ n < lines.length ∧
          (classify profile lines).anomaly = some ⟨region.kind, n + 1, opener⟩ ∧
          profile.OpenSince lines region opener n ∧
          region.DeterminesKinds profile n (classify profile lines).tags := by
  refine ⟨Scanner.anomaly?_eq_none_iff (Scanner.sound_feedLines profile lines), ?_⟩
  intro region ended
  obtain ⟨opener, listed, openSince⟩ := profile.openSince_regionLine lines ended
  exact ⟨opener, _, listed, openSince.lt_length, Scanner.anomaly?_eq_some ended listed,
    openSince, determinesKinds_of_open profile lines ended⟩

/-- A second literal is open at the end, and the first one, closed before it, is forgotten. -/
theorem anomaly_names_second_literal :
    (Scanner.feedLines .documented {}
        ["'''a'''".toList, "x '''b".toList, "c".toList]).mode.region? = some (.string 1) ∧
      ∃ opener n, (Region.string 1).opener? .documented = some opener ∧ n < 3 ∧
        (classify .documented ["'''a'''".toList, "x '''b".toList, "c".toList]).anomaly =
          some ⟨.string, n + 1, opener⟩ ∧
        Profile.documented.OpenSince ["'''a'''".toList, "x '''b".toList, "c".toList]
          (.string 1) opener n ∧
        (Region.string 1).DeterminesKinds .documented n
          (classify .documented ["'''a'''".toList, "x '''b".toList, "c".toList]).tags := by
  have inside : (Scanner.feedLines .documented {}
      ["'''a'''".toList, "x '''b".toList, "c".toList]).mode.region? = some (.string 1) := by
    decide +kernel
  exact ⟨inside, (anomaly_names_open_region _ _).2 _ inside⟩

end LineTally
