import LineTally.Proofs.Line.Invariant

/-!
# Every line is told apart

Whatever is visible leaves a mark on its line: a line without marks is blank.  So
the marks of a line always tell its kind, and a line with visible characters is
never left to the last case of `Marks.kind`.
-/

namespace LineTally

namespace Marks

/-- Something has been met on the line, or the line began in a region. -/
def IsMarked (marks : Marks) : Prop :=
  marks.code = true ∨ marks.comment = true ∨ marks.carried = true ∨ marks.doc = true

/-- The line has a mark or is blank. -/
def IsTold (marks : Marks) : Prop :=
  marks.IsMarked ∨ marks.blank = true

theorem IsMarked.resolve {marks : Marks} (marked : marks.IsMarked) (asCode : Bool) :
    (marks.resolve asCode).IsMarked := by
  rw [Marks.resolve]
  split
  · cases asCode with
    | true => exact .inl (Bool.or_true _)
    | false => exact .inr (.inl (Bool.or_true _))
  · exact marked

@[simp]
theorem blank_resolve (asCode : Bool) (marks : Marks) :
    (marks.resolve asCode).blank = marks.blank := by
  rw [Marks.resolve]
  split <;> rfl

theorem IsTold.resolve {marks : Marks} (told : marks.IsTold) (asCode : Bool) :
    (marks.resolve asCode).IsTold := by
  rcases told with marked | blank
  · exact .inl (marked.resolve asCode)
  · exact .inr ((blank_resolve asCode marks).trans blank)

theorem IsTold.resolveLatest {latestFirst : List Marks}
    (told : ∀ marks ∈ latestFirst, marks.IsTold) (asCode : Bool) (count : Nat) :
    ∀ marks ∈ Marks.resolveLatest asCode count latestFirst, marks.IsTold := by
  intro marks member
  rcases List.mem_append.mp member with resolved | kept
  · obtain ⟨old, oldMember, rfl⟩ := List.mem_map.mp resolved
    exact (told old (List.mem_of_mem_take oldMember)).resolve asCode
  · exact told marks (List.mem_of_mem_drop kept)

end Marks

/-- A blank character in code. -/
def Lexeme.isBlank : Lexeme → Bool
  | .plain c => LineTally.isBlank c
  | _ => false

/-- If nothing but blank characters is met in code, the text is blank. -/
theorem Profile.allBlank_of_lexemes (profile : Profile) (text : Text)
    (blank : (profile.lexemes .code text).all Lexeme.isBlank = true) :
    text.allBlank = true := by
  generalize inCode : Mode.code = mode at blank
  fun_induction lexemes profile mode text with
  | case1 => rfl
  | case2 mode c cs inductionHypothesis =>
      subst inCode
      rw [List.all_cons, Bool.and_eq_true] at blank
      obtain ⟨first, rest⟩ := blank
      cases met : profile.lexCode c cs with
      | mk lexeme remaining =>
          have lexEq : profile.lex .code c cs = (lexeme, remaining) := met
          rw [lexEq] at first rest inductionHypothesis
          -- Only a character that opens nothing is blank, and it takes one character.
          have taken : lexeme = .plain c ∧ remaining = cs := by
            unfold lexCode at met
            split at met <;> cases met
            all_goals first | exact ⟨rfl, rfl⟩ | contradiction
          obtain ⟨rfl, rfl⟩ := taken
          have restBlank := inductionHypothesis rfl rest
          simp only [Text.allBlank, List.all_cons, Bool.and_eq_true]
          exact ⟨first, restBlank⟩

namespace LineScan

variable {profile : Profile} {scan : LineScan}

/-- What is known of the marks after some lexemes; `blankSoFar` says whether all of
them were blank. -/
structure Told (blank : Bool) (scan : LineScan) (blankSoFar : Bool) : Prop where
  past : ∀ marks ∈ scan.past, marks.IsTold
  current : scan.current.IsMarked ∨ (scan.mode = .code ∧ blankSoFar = true)
  blank : scan.current.blank = blank

theorem Told.settle {blank blankSoFar : Bool} (told : Told blank scan blankSoFar)
    (asCode : Bool) : Told blank (scan.settle asCode) blankSoFar := by
  rcases scan.doc.eq_closed_or_ne with ⟨first, closed⟩ | notClosed
  · rw [settle_of_closed closed]
    constructor
    case past => exact Marks.IsTold.resolveLatest told.past _ _
    case current => exact told.current.imp_left (·.resolve asCode)
    case blank => exact (Marks.blank_resolve ..).trans told.blank
  · rwa [settle_of_not_closed notClosed]

theorem Told.markCode {blank blankSoFar : Bool} (told : Told blank scan blankSoFar)
    (blankSoFar' : Bool) : Told blank scan.markCode blankSoFar' :=
  ⟨(told.settle true).past, .inl (.inl rfl), (told.settle true).blank⟩

theorem Told.openQuote {blank blankSoFar : Bool} (told : Told blank scan blankSoFar)
    (quote : Nat) (blankSoFar' : Bool) :
    Told blank (scan.openQuote profile quote) blankSoFar' := by
  by_cases candidate : scan.Candidate profile quote
  · rw [openQuote_of_candidate candidate]
    exact ⟨told.past, .inl (.inr (.inr (.inr rfl))), told.blank⟩
  · rw [openQuote_of_not_candidate candidate]
    have marked := told.markCode blankSoFar'
    exact ⟨marked.past, .inl (.inl rfl), marked.blank⟩

/-- In code a lexeme that is not blank leaves a mark; in a region the line has one
already. -/
theorem Told.observe {blank blankSoFar : Bool} {lexeme : Lexeme}
    (told : Told blank scan blankSoFar) (fits : lexeme.Fits profile scan.mode) :
    Told blank (scan.observe profile lexeme) (blankSoFar && lexeme.isBlank) := by
  obtain ⟨past, current, blankEq⟩ := told
  have inRegion (region : scan.mode ≠ .code) : scan.current.IsMarked :=
    current.resolve_right fun unmarked => region unmarked.1
  rcases scan with ⟨mode, line, marks, current', regionLine, doc⟩
  cases fits with
  | plain c =>
      simp only [LineScan.observe]
      split
      · next isBlank =>
          refine ⟨past, current.imp_right ?_, blankEq⟩
          rintro ⟨inCode, soFar⟩
          exact ⟨inCode, by simp [soFar, Lexeme.isBlank, isBlank]⟩
      · exact Told.markCode ⟨past, current, blankEq⟩ _
  | charLiteral => exact Told.markCode ⟨past, current, blankEq⟩ _
  | lineComment => exact ⟨past, .inl (.inr (.inl rfl)), blankEq⟩
  | blockOpener => exact ⟨past, .inl (.inr (.inl rfl)), blankEq⟩
  | quoteOpener => exact Told.openQuote ⟨past, current, blankEq⟩ _ _
  | _ => exact ⟨past, .inl (inRegion Mode.noConfusion), blankEq⟩

private theorem foldl_and_eq_all (p : Lexeme → Bool) (lexemes : List Lexeme) (soFar : Bool) :
    lexemes.foldl (fun soFar lexeme => soFar && p lexeme) soFar = (soFar && lexemes.all p) := by
  induction lexemes generalizing soFar with
  | nil => simp
  | cons lexeme rest inductionHypothesis =>
      rw [List.foldl_cons, inductionHypothesis, List.all_cons, Bool.and_assoc]

theorem Told.run {blank blankSoFar : Bool} (told : Told blank scan blankSoFar)
    (valid : scan.mode.Valid profile) (text : Text) :
    Told blank (scan.run profile text)
      (blankSoFar && (profile.lexemes scan.mode text).all Lexeme.isBlank) := by
  have ran := related_run (fun fits _ told => Told.observe told fits) valid told text
  rwa [foldl_and_eq_all] at ran

/-- At the end of a line its marks tell it apart. -/
theorem isTold_run (valid : scan.mode.Valid profile) (text : Text)
    (past : ∀ marks ∈ scan.past, marks.IsTold)
    (current : scan.current.IsMarked ∨ scan.mode = .code)
    (blank : scan.current.blank = text.allBlank) :
    ∀ marks ∈ (scan.run profile text).endLine.marks, marks.IsTold := by
  have start : Told text.allBlank scan (decide (scan.mode = .code)) := by
    refine ⟨past, ?_, blank⟩
    rcases current with marked | inCode
    · exact .inl marked
    · exact .inr ⟨inCode, decide_eq_true inCode⟩
  have ended := (start.run valid text).settle false
  rw [endLine_eq_settle]
  intro marks member
  rcases List.mem_cons.mp member with rfl | earlier
  · rcases ended.current with marked | ⟨_, soFar⟩
    · exact .inl marked
    · rw [Bool.and_eq_true, decide_eq_true_eq] at soFar
      obtain ⟨inCode, allBlank⟩ := soFar
      rw [inCode] at allBlank
      exact .inr (ended.blank.trans (profile.allBlank_of_lexemes text allBlank))
  · exact ended.past marks earlier

end LineScan

namespace Scanner

variable {profile : Profile} {scanner : Scanner}

theorem isTold_feedLine (sound : scanner.Sound profile)
    (told : ∀ marks ∈ scanner.marks, marks.IsTold) (line : Text) :
    ∀ marks ∈ (scanner.feedLine profile line).marks, marks.IsTold := by
  rw [feedLine]
  split
  · intro marks member
    rcases List.mem_cons.mp member with rfl | earlier
    · exact .inl (.inr (.inl rfl))
    · exact told marks earlier
  · apply LineScan.isTold_run (sound.beginLine line).valid line told
    · simp only [beginLine, firstMarks]
      split
      · next inCode => exact .inr inCode
      · exact .inl (.inr (.inr (.inl rfl)))
      · exact .inl (.inr (.inr (.inr rfl)))
      · exact .inl (.inl rfl)
    · simp only [beginLine, firstMarks]
      split <;> rfl

/-- Every line that has been read has a mark or is blank. -/
theorem isTold_feedLines (profile : Profile) (lines : List Text) :
    ∀ marks ∈ (Scanner.feedLines profile {} lines).marks, marks.IsTold := by
  have start : ∀ marks ∈ ({} : Scanner).marks, marks.IsTold := by
    intro marks member
    contradiction
  have sound := sound_empty profile
  rw [feedLines]
  generalize ({} : Scanner) = scanner at start sound
  induction lines generalizing scanner with
  | nil => exact start
  | cons line rest inductionHypothesis =>
      exact inductionHypothesis (scanner.feedLine profile line)
        (isTold_feedLine sound start line) (sound.feedLine line)

end Scanner

end LineTally
