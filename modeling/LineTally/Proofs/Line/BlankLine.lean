import LineTally.Proofs.Language.Visible
import LineTally.Proofs.Line.CommentLine

/-!
# Blank lines

A line is blank if there is nothing but blank characters on it and it begins in code
(`tag_of_latest_eq_blank_iff`): inside a region even an empty line belongs to the region.
Lines that follow do not make a line blank, nor change a blank line
(`getElem?_tags_append_eq_blank_iff`).
-/

namespace LineTally

variable {profile : Profile}

theorem Marks.kind_eq_blank_iff {marks : Marks} :
    marks.kind = .blank ↔ ¬ marks.IsMarked ∧ marks.blank = true := by
  rcases marks with ⟨code, comment, doc, carried, blank⟩
  cases code <;> cases comment <;> cases doc <;> cases carried <;> cases blank <;>
    simp [kind, IsMarked]

/-- Blank characters in code leave the scan as it is. -/
theorem LineScan.run_of_allBlank {scan : LineScan} (visibly : profile.BeginsVisibly)
    (inCode : scan.mode = .code) {text : Text} (blank : text.allBlank = true) :
    scan.run profile text = scan := by
  have valid : scan.mode.Valid profile := by
    rw [inCode]
    trivial
  induction text with
  | nil => rw [run]
  | cons c cs inductionHypothesis =>
      simp only [Text.allBlank, List.all_cons, Bool.and_eq_true] at blank
      rw [run_cons_observe valid, inCode]
      simp only [Profile.lex, Profile.lexCode, visibly.longestOpener_blank blank.1, observe,
        blank.1, if_true]
      exact inductionHypothesis blank.2

namespace Scanner

variable {scanner : Scanner}

theorem firstMarks_of_mode_eq_code (inCode : scanner.mode = .code) (line : Text) :
    scanner.firstMarks line = { blank := line.allBlank } := by
  rw [firstMarks, inCode]

theorem isMarked_firstMarks (inRegion : scanner.mode ≠ .code) (line : Text) :
    (scanner.firstMarks line).IsMarked := by
  rw [firstMarks]
  split
  · next inCode => exact absurd inCode inRegion
  · exact .inr (.inr (.inl rfl))
  · exact .inr (.inr (.inr rfl))
  · exact .inl rfl

theorem blank_firstMarks (scanner : Scanner) (line : Text) :
    (scanner.firstMarks line).blank = line.allBlank := by
  rw [firstMarks]
  split <;> rfl

/-- A line of blank characters in code gets no mark. -/
theorem marks_feedLine_of_allBlank (visibly : profile.BeginsVisibly)
    (sound : scanner.Sound profile) (inCode : scanner.mode = .code) {line : Text}
    (blank : line.allBlank = true) :
    (scanner.feedLine profile line).marks = { blank := true } :: scanner.marks := by
  have notColumnOne : ¬ (scanner.mode = .code ∧
      profile.startsWithColumnOneComment line = true) := by
    simp [visibly.startsWithColumnOneComment_blank blank]
  have undecided : scanner.doc = .none := sound.doc_eq_none (by simp [inCode])
  have begun : (scanner.beginLine line).mode = .code := inCode
  rw [feedLine, if_neg notColumnOne, LineScan.run_of_allBlank visibly begun blank,
    LineScan.endLine_eq_settle, LineScan.settle_of_not_closed (by simp [beginLine, undecided])]
  simp only [LineScan.leave, beginLine, firstMarks_of_mode_eq_code inCode, blank]

/-- The marks of a line say whether it holds blank characters only, and a line that begins in
a region is marked. -/
theorem exists_marks_feedLine (sound : scanner.Sound profile)
    (told : ∀ marks ∈ scanner.marks, marks.IsTold) (line : Text) :
    ∃ marks older, (scanner.feedLine profile line).marks = marks :: older ∧
      marks.blank = line.allBlank ∧ (scanner.mode ≠ .code → marks.IsMarked) := by
  rw [feedLine]
  split
  · next columnOne =>
      exact ⟨_, _, rfl, blank_firstMarks scanner line,
        fun inRegion => absurd columnOne.1 inRegion⟩
  · have begun : LineScan.Told line.allBlank (scanner.beginLine line)
        (decide (scanner.mode = .code)) := by
      refine ⟨told, ?_, blank_firstMarks scanner line⟩
      by_cases inCode : scanner.mode = .code
      · exact .inr ⟨inCode, decide_eq_true inCode⟩
      · exact .inl (isMarked_firstMarks inCode line)
    have ended := (begun.run (sound.beginLine line).valid line).settle false
    refine ⟨_, _, rfl, ended.blank, fun inRegion => ?_⟩
    rcases ended.current with marked | ⟨_, soFar⟩
    · exact marked
    · rw [Bool.and_eq_true, decide_eq_true_eq] at soFar
      exact absurd soFar.1 inRegion

/-- Once all is settled too, every line has a mark or is blank. -/
theorem isTold_finalMarks (profile : Profile) (lines : List Text) :
    ∀ marks ∈ (Scanner.feedLines profile {} lines).finalMarks, marks.IsTold := by
  have told := isTold_feedLines profile lines
  rw [finalMarks]
  split
  · exact told
  · exact Marks.IsTold.resolveLatest told false _
  · exact Marks.IsTold.resolveLatest told false _

end Scanner

/-- The latest line is blank just if nothing but blank characters is on it and it begins in
code. -/
theorem tag_of_latest_eq_blank_iff (visibly : profile.BeginsVisibly) (lines : List Text)
    (line : Text) :
    (classify profile (lines ++ [line])).tags[lines.length]? = some .blank ↔
      line.allBlank = true ∧ (Scanner.feedLines profile {} lines).mode = .code := by
  have sound := Scanner.sound_feedLines profile lines
  have fed : Scanner.feedLines profile {} (lines ++ [line]) =
      (Scanner.feedLines profile {} lines).feedLine profile line :=
    Scanner.feedLines_append profile {} lines [line]
  constructor
  · intro tagged
    obtain ⟨marks, older, marksEq, blankEq, inRegion⟩ :=
      Scanner.exists_marks_feedLine sound (Scanner.isTold_feedLines profile lines) line
    rw [tag_of_latest (fed ▸ marksEq), Option.some.injEq, Marks.kind_eq_blank_iff] at tagged
    obtain ⟨unmarked, blank⟩ := tagged
    exact ⟨blankEq.symm.trans blank, not_not.mp fun notCode => unmarked (inRegion notCode)⟩
  · rintro ⟨blank, inCode⟩
    have marksEq := Scanner.marks_feedLine_of_allBlank visibly sound inCode blank
    rw [tag_of_latest (fed ▸ marksEq)]
    rfl

/-- Lines that follow neither make a line blank nor change one that is. -/
theorem getElem?_tags_append_eq_blank_iff {lines : List Text} {n : Nat}
    (below : n < lines.length) (more : List Text) :
    (classify profile (lines ++ more)).tags[n]? = some .blank ↔
      (classify profile lines).tags[n]? = some .blank := by
  rw [← length_tags_classify profile lines] at below
  rcases tags_append_or_revised profile lines more with ⟨rest, append⟩ |
    ⟨_, anomaly, _, revises⟩
  · rw [← append, List.getElem?_append_left below]
  · by_cases reached : anomaly.line ≤ n + 1
    · obtain ⟨wasComment, isCode⟩ := revises.getElem?_of_le below reached
      rw [wasComment, isCode]
      simp
    · rw [revises.getElem?_of_lt (Nat.lt_of_not_le reached)]

/-- The delimiters of every known language begin with a visible character.  Where they do, a
line is blank just if it holds nothing but blank characters and begins in code.  Whatever the
delimiters, a line without a mark is blank, so none is taken for code because it has no mark;
and a blank line stays blank whatever lines follow. -/
theorem line_is_blank_just_in_code :
    (∀ profile ∈ Profile.all, profile.BeginsVisibly) ∧
    ∀ (profile : Profile) (lines : List Text),
      (profile.BeginsVisibly → ∀ n line, lines[n]? = some line →
        ((classify profile lines).tags[n]? = some .blank ↔
          line.allBlank = true ∧
            (Scanner.feedLines profile {} (lines.take n)).mode = .code)) ∧
      (∀ marks ∈ (Scanner.feedLines profile {} lines).finalMarks, marks.IsTold) ∧
      ∀ (more : List Text) (n : Nat), (classify profile lines).tags[n]? = some .blank →
        (classify profile (lines ++ more)).tags[n]? = some .blank := by
  refine ⟨Profile.beginsVisibly_of_mem_all, fun profile lines =>
    ⟨?_, Scanner.isTold_finalMarks profile lines, ?_⟩⟩
  · intro visibly n line found
    obtain ⟨below, rfl⟩ := List.getElem?_eq_some_iff.mp found
    have length : (lines.take n).length = n := List.length_take_of_le (Nat.le_of_lt below)
    have inside : n < (lines.take n ++ [lines[n]]).length := by
      rw [List.length_append, length]
      exact Nat.lt_succ_self n
    have whole : lines = lines.take n ++ [lines[n]] ++ lines.drop (n + 1) := by
      rw [List.append_assoc, List.singleton_append, ← List.drop_eq_getElem_cons below,
        List.take_append_drop]
    calc
      (classify profile lines).tags[n]? = some .blank ↔
          (classify profile (lines.take n ++ [lines[n]])).tags[n]? = some .blank := by
        rw [← getElem?_tags_append_eq_blank_iff inside (lines.drop (n + 1)), ← whole]
      _ ↔ lines[n].allBlank = true ∧
          (Scanner.feedLines profile {} (lines.take n)).mode = .code := by
        have latest := tag_of_latest_eq_blank_iff visibly (lines.take n) lines[n]
        rwa [length] at latest
  · intro more n tagged
    have below := (List.getElem?_eq_some_iff.mp tagged).1
    rw [length_tags_classify] at below
    exact (getElem?_tags_append_eq_blank_iff below more).mpr tagged

/-- An empty line inside documentation is not blank; behind it a line of blank characters is,
and stays so. -/
theorem blank_line_behind_documentation :
    let lines := ["'''a".toList, [], "b'''".toList, "\t ".toList]
    Profile.documented.BeginsVisibly ∧
      lines[1]? = some [] ∧ (classify .documented lines).tags[1]? ≠ some .blank ∧
      lines[3]? = some "\t ".toList ∧ (classify .documented lines).tags[3]? = some .blank ∧
      (classify .documented (lines ++ ["'''".toList])).tags[3]? = some .blank := by
  intro lines
  have visibly : Profile.documented.BeginsVisibly := by decide +kernel
  obtain ⟨blank, _, kept⟩ := line_is_blank_just_in_code.2 .documented lines
  have inString : (Scanner.feedLines .documented {} (lines.take 1)).mode ≠ .code := by
    decide +kernel
  have inCode : (Scanner.feedLines .documented {} (lines.take 3)).mode = .code := by
    decide +kernel
  have last := (blank visibly 3 "\t ".toList rfl).mpr ⟨by decide, inCode⟩
  refine ⟨visibly, rfl, fun isBlank => ?_, rfl, last, kept _ _ last⟩
  exact inString ((blank visibly 1 [] rfl).mp isBlank).2

end LineTally
