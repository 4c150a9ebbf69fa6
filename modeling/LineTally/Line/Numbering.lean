import LineTally.Line.Classification

/-!
# Line numbers

The scanner counts lines beside the marks that it keeps of them.  Nothing within a
line changes the count or the number of marks, and each line adds one to both, so
that the count is always the number of marks: `length_marks_feedLines`.  Each line
has one kind in the end: `length_tags_classify`.
-/

namespace LineTally

namespace LineScan

@[simp]
theorem line_markCode (scan : LineScan) : scan.markCode.line = scan.line := by
  unfold markCode
  split <;> rfl

@[simp]
theorem length_past_markCode (scan : LineScan) :
    scan.markCode.past.length = scan.past.length := by
  unfold markCode
  split
  · exact Marks.length_resolveLatest ..
  · rfl

@[simp]
theorem line_openQuote (profile : Profile) (quote : Nat) (scan : LineScan) :
    (scan.openQuote profile quote).line = scan.line := by
  unfold openQuote
  simp only []
  split <;> simp

@[simp]
theorem length_past_openQuote (profile : Profile) (quote : Nat) (scan : LineScan) :
    (scan.openQuote profile quote).past.length = scan.past.length := by
  unfold openQuote
  simp only []
  split <;> simp

theorem numbering_stepCode (profile : Profile) (scan : LineScan) (rest : Text) :
    (scan.stepCode profile rest).1.line = scan.line ∧
      (scan.stepCode profile rest).1.past.length = scan.past.length := by
  unfold stepCode
  split
  case h_5 => split <;> simp
  all_goals simp

theorem numbering_stepBlock (profile : Profile) (pair depth : Nat) (scan : LineScan)
    (rest : Text) :
    (scan.stepBlock profile pair depth rest).1.line = scan.line ∧
      (scan.stepBlock profile pair depth rest).1.past = scan.past := by
  unfold stepBlock
  split
  · exact ⟨rfl, rfl⟩
  · split
    · exact ⟨rfl, rfl⟩
    · split <;> exact ⟨rfl, rfl⟩

theorem numbering_stepString (profile : Profile) (quote : Nat) (scan : LineScan)
    (rest : Text) :
    (scan.stepString profile quote rest).1.line = scan.line ∧
      (scan.stepString profile quote rest).1.past = scan.past := by
  unfold stepString
  split
  · exact ⟨rfl, rfl⟩
  · split
    · exact ⟨rfl, rfl⟩
    · split <;> exact ⟨rfl, rfl⟩

/-- A step stays on its line. -/
theorem numbering_step {profile : Profile} {scan next : LineScan} {rest : Text} {move : Move}
    (taken : scan.step profile rest = (next, move)) :
    next.line = scan.line ∧ next.past.length = scan.past.length := by
  have next_eq : next = (scan.step profile rest).1 := by rw [taken]
  rw [next_eq]
  unfold step
  split
  · exact numbering_stepCode profile scan rest
  · next pair depth _ =>
      have ⟨line, past⟩ := numbering_stepBlock profile pair depth scan rest
      exact ⟨line, by rw [past]⟩
  · next quote _ =>
      have ⟨line, past⟩ := numbering_stepString profile quote scan rest
      exact ⟨line, by rw [past]⟩

/-- A run stays on its line. -/
theorem numbering_run (profile : Profile) (scan : LineScan) (rest : Text) :
    (scan.run profile rest).line = scan.line ∧
      (scan.run profile rest).past.length = scan.past.length := by
  fun_induction run profile scan rest with
  | case1 => exact ⟨rfl, rfl⟩
  | case2 _ _ _ _ taken => exact numbering_step taken
  | case3 _ _ _ _ _ taken => exact numbering_step taken
  | case4 _ _ _ _ _ taken _ _ _ _ inductionHypothesis =>
      have ⟨line, past⟩ := numbering_step taken
      exact ⟨inductionHypothesis.1.trans line, inductionHypothesis.2.trans past⟩
  | case5 _ _ _ _ _ taken => exact numbering_step taken

theorem numbering_endLine (scan : LineScan) :
    scan.endLine.line = scan.line + 1 ∧
      scan.endLine.marks.length = scan.past.length + 1 := by
  unfold endLine
  simp only []
  split <;> simp [resolveDoc]

end LineScan

namespace Scanner

/-- A line adds one to the count and one to the marks. -/
theorem numbering_feedLine (profile : Profile) (scanner : Scanner) (line : Text) :
    (scanner.feedLine profile line).line = scanner.line + 1 ∧
      (scanner.feedLine profile line).marks.length = scanner.marks.length + 1 := by
  unfold feedLine
  split
  · exact ⟨rfl, rfl⟩
  · have ended := ((scanner.beginLine line).run profile line).numbering_endLine
    have ran := LineScan.numbering_run profile (scanner.beginLine line) line
    exact ⟨by rw [ended.1, ran.1]; rfl, by rw [ended.2, ran.2]; rfl⟩

theorem line_feedLines (profile : Profile) (scanner : Scanner) (lines : List Text) :
    (scanner.feedLines profile lines).line = scanner.line + lines.length := by
  unfold feedLines
  induction lines generalizing scanner with
  | nil => rfl
  | cons line rest inductionHypothesis =>
      have counted := (numbering_feedLine profile scanner line).1
      simp only [List.foldl_cons, inductionHypothesis, List.length_cons]
      omega

/-- There are marks of every line that has been read. -/
theorem length_marks_feedLines (profile : Profile) (scanner : Scanner) (lines : List Text) :
    (scanner.feedLines profile lines).marks.length = scanner.marks.length + lines.length := by
  unfold feedLines
  induction lines generalizing scanner with
  | nil => rfl
  | cons line rest inductionHypothesis =>
      have counted := (numbering_feedLine profile scanner line).2
      simp only [List.foldl_cons, inductionHypothesis, List.length_cons]
      omega

theorem length_finalMarks (scanner : Scanner) :
    scanner.finalMarks.length = scanner.marks.length := by
  unfold finalMarks
  split
  · rfl
  · exact Marks.length_resolveLatest ..
  · exact Marks.length_resolveLatest ..

end Scanner

/-- Every line has one kind. -/
theorem length_tags_classify (profile : Profile) (lines : List Text) :
    (classify profile lines).tags.length = lines.length := by
  simp only [classify, Scanner.finish, List.length_reverse, List.length_map]
  rw [Scanner.length_finalMarks, Scanner.length_marks_feedLines]
  exact Nat.zero_add _

end LineTally
