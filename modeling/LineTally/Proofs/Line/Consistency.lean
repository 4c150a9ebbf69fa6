import LineTally.Proofs.Line.OpenRegion
import LineTally.Proofs.Line.Splitting

/-!
# The state of the scanner is consistent

After every line the fields of the scanner fit together and every index that it holds is in
range: the region that is open is one of the profile, its line has been read, and a literal
that waits for a decision is the one that is open.  Within a line a literal may also have
been closed, even behind which a block comment has opened; the line where it began is then
known as well (`Place.sound_of_visitsOn`).
-/

namespace LineTally

variable {profile : Profile}

namespace LineScan

variable {scan : LineScan}

/-- A literal that waits for a decision began on a line that has been reached. -/
def WaitsInRange (scan : LineScan) : Prop :=
  ∀ first, scan.doc.first? = some first → first ≤ scan.line

theorem WaitsInRange.markCode (inRange : scan.WaitsInRange) : scan.markCode.WaitsInRange := by
  intro first waiting
  rw [markCode_eq_settle] at waiting ⊢
  simp only [line_settle]
  rcases scan.doc.eq_closed_or_ne with ⟨first', closed⟩ | notClosed
  · rw [settle_of_closed closed] at waiting
    contradiction
  · rw [settle_of_not_closed notClosed] at waiting
    exact inRange first waiting

theorem WaitsInRange.openQuote (inRange : scan.WaitsInRange) (quote : Nat) :
    (scan.openQuote profile quote).WaitsInRange := by
  by_cases candidate : scan.Candidate profile quote
  · rw [openQuote_of_candidate candidate]
    intro first waiting
    cases waiting
    exact Nat.le_refl _
  · rw [openQuote_of_not_candidate candidate]
    exact inRange.markCode

theorem WaitsInRange.observe (inRange : scan.WaitsInRange) (lexeme : Lexeme) :
    (scan.observe profile lexeme).WaitsInRange := by
  cases lexeme with
  | plain c =>
      simp only [LineScan.observe]
      split
      · exact inRange
      · exact inRange.markCode
  | charLiteral => exact inRange.markCode
  | quoteOpener quote => exact inRange.openQuote quote
  | quoteCloser =>
      intro first waiting
      exact inRange first ((Docstring.first?_close scan.doc).symm.trans waiting)
  | _ => exact inRange

end LineScan

theorem Scanner.Sound.waitsInRange_beginLine {scanner : Scanner} (sound : scanner.Sound profile)
    (line : Text) : (scanner.beginLine line).WaitsInRange := by
  intro first waiting
  obtain ⟨⟨quote, literal, inString, _⟩, regionLine⟩ :=
    sound.opened (sound.doc_eq_opened waiting)
  have below := sound.regionLine_lt (by simp [inString])
  exact Nat.le_of_lt (regionLine ▸ below)

/-- At every place of a line the scanner is sound, and a literal that waits for a decision
began on that line or before it. -/
theorem Place.sound_of_visitsOn {lines : List Text} {n : Nat} {place : Place}
    (visits : profile.VisitsOn lines n place) :
    place.scan.Sound profile ∧ place.scan.WaitsInRange ∧ place.scan.line = n := by
  obtain ⟨line, found, _, reached⟩ := visits
  have begun := Scanner.sound_feedLines profile (lines.take n)
  have counted : (Scanner.feedLines profile {} (lines.take n)).line = n := by
    rw [Scanner.line_feedLines, List.length_take_of_le]
    · exact Nat.zero_add n
    · exact Nat.le_of_lt (List.getElem?_eq_some_iff.mp found).1
  refine (preserved_of_reaches
    (motive := fun scan => scan.Sound profile ∧ scan.WaitsInRange ∧ scan.line = n) ?_
    (begun.beginLine line).valid
    ⟨begun.beginLine line, begun.waitsInRange_beginLine line, counted⟩ reached).2
  rintro scan c cs _ ⟨sound, inRange, number⟩
  have fits := profile.lex_fits scan.mode c cs
  exact ⟨sound.observe fits, inRange.observe _, (LineScan.line_observe ..).trans number⟩

/-- After any lines the fields of the scanner are consistent: an open region is one of the
profile with an opener that is not empty, only a pair that nests is open more than once, and
its line has been read; a literal waits for a decision only while it is open, and exactly the
marks of its lines say so, none of which is of code; and there are marks of every line.  So
the region that is reported is known, and whenever a literal is settled, its lines are
there. -/
theorem scanner_is_consistent (profile : Profile) (lines : List Text) :
    let scanner := Scanner.feedLines profile {} lines
    (∀ pair depth, scanner.mode = .block pair depth →
      ∃ delimiters, profile.blockComments[pair]? = some delimiters ∧ delimiters.opener ≠ [] ∧
        1 ≤ depth ∧ (depth = 1 ∨ delimiters.nestable = true)) ∧
    (∀ quote, scanner.mode = .string quote →
      ∃ literal, profile.quotes[quote]? = some literal ∧ literal.delimiter ≠ []) ∧
    (scanner.mode ≠ .code → scanner.regionLine < lines.length) ∧
    (∀ first, scanner.doc ≠ .closed first) ∧
    (∀ first, scanner.doc = .opened first →
      first = scanner.regionLine ∧ first < lines.length ∧
        ∃ quote literal, scanner.mode = .string quote ∧
          profile.quotes[quote]? = some literal ∧ literal.doc = true) ∧
    ((∀ quote, scanner.mode ≠ .string quote) → scanner.doc = .none) ∧
    scanner.marks.length = lines.length ∧
    (∀ n marks, scanner.marks.reverse[n]? = some marks →
      (marks.doc = true ↔ ∃ first, scanner.doc = .opened first ∧ first ≤ n) ∧
        (marks.doc = true → marks.code = false)) ∧
    (scanner.mode ≠ .code → (scanner.anomaly? profile).isSome = true) ∧
    ∀ n place, profile.VisitsOn lines n place →
      place.scan.past.length = n ∧
        ∀ first, place.scan.doc.first? = some first → first ≤ n := by
  intro scanner
  have sound : scanner.Sound profile := Scanner.sound_feedLines profile lines
  have length : scanner.marks.length = lines.length :=
    (Scanner.length_marks_feedLines profile {} lines).trans (Nat.zero_add _)
  have regionLine_lt (notCode : scanner.mode ≠ .code) : scanner.regionLine < lines.length := by
    rw [← length, sound.length_marks]
    exact sound.regionLine_lt notCode
  have valid := sound.valid
  refine ⟨?_, ?_, regionLine_lt, sound.not_closed, ?_, sound.doc_eq_none, length, ?_, ?_, ?_⟩
  · intro pair depth inside
    rwa [inside] at valid
  · intro quote inside
    rwa [inside] at valid
  · intro first isOpened
    obtain ⟨⟨quote, literal, inString, listed, mayBeDoc⟩, rfl⟩ := sound.opened isOpened
    exact ⟨rfl, regionLine_lt (by simp [inString]), quote, literal, inString, listed, mayBeDoc⟩
  · intro n marks found
    have below : n < scanner.marks.length := by
      simpa using (List.getElem?_eq_some_iff.mp found).1
    obtain ⟨marks', found', marked, notCode⟩ := sound.lines.getElem?_reverse below
    rw [found, Option.some.injEq] at found'
    subst found'
    refine ⟨marked.trans (exists_congr fun first => and_congr_left fun _ => ?_), notCode⟩
    exact ⟨sound.doc_eq_opened, fun isOpened => by rw [isOpened]; rfl⟩
  · intro notCode
    rw [Option.isSome_iff_ne_none]
    exact mt (Scanner.anomaly?_eq_none_iff sound).mp notCode
  · intro n place visits
    obtain ⟨placeSound, inRange, number⟩ := Place.sound_of_visitsOn visits
    rw [← number]
    exact ⟨placeSound.length_past, inRange⟩

/-- The second of three lines opens documentation that waits for a decision. -/
theorem consistent_in_open_documentation :
    let scanner := Scanner.feedLines .documented {} ["x".toList, "'''a".toList, "b".toList]
    scanner.mode = .string 1 ∧ scanner.doc = .opened 1 ∧
      (∃ literal, Profile.documented.quotes[1]? = some literal ∧ literal.delimiter ≠ []) ∧
      scanner.regionLine < 3 ∧ 1 = scanner.regionLine ∧
      (scanner.anomaly? .documented).isSome = true := by
  intro scanner
  have inside : scanner.mode = .string 1 := by decide +kernel
  have waiting : scanner.doc = .opened 1 := by decide +kernel
  have notCode : scanner.mode ≠ .code := by simp [inside]
  obtain ⟨_, string, regionLine, _, opened, _, _, _, reported, _⟩ :=
    scanner_is_consistent .documented ["x".toList, "'''a".toList, "b".toList]
  exact ⟨inside, waiting, string 1 inside, regionLine notCode, (opened 1 waiting).1,
    reported notCode⟩

end LineTally
