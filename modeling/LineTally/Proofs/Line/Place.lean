import Mathlib.Logic.Relation
import LineTally.Proofs.Line.Observation

/-!
# The places of a scan

A scan of a line goes from place to place: a place is what the scanner has in hand
and what is left of the line.  `Place.Next` is one step of the scanner, so that what
is said of all places that are reached is said of the scanner at every moment.

In a valid mode the step is known from the lexeme at the place (`next_iff`).
-/

namespace LineTally

/-- A scan between two steps. -/
structure Place where
  scan : LineScan
  /-- What is left of the line. -/
  rest : Text

namespace Place

/-- One step leads from a place to the next. -/
inductive Next (profile : Profile) : Place → Place → Prop where
  | step {scan next : LineScan} {move : Move} {c : Char} {cs rest : Text} :
      scan.step profile (c :: cs) = (next, move) →
      move.remaining? (c :: cs) = some rest → Next profile ⟨scan, c :: cs⟩ ⟨next, rest⟩

/-- Some steps, perhaps none, lead from a place to another. -/
abbrev Reaches (profile : Profile) : Place → Place → Prop :=
  Relation.ReflTransGen (Next profile)

variable {profile : Profile} {scan : LineScan} {place next later : Place}

theorem not_next_of_rest_eq_nil (scan : LineScan) : ¬ Next profile ⟨scan, []⟩ later := by
  intro step
  cases step

theorem Next.unique (step : Next profile place next) (other : Next profile place later) :
    next = later := by
  cases step with
  | step taken moved =>
      cases other with
      | step taken' moved' =>
          rw [taken] at taken'
          cases taken'
          rw [moved] at moved'
          cases moved'
          rfl

/-- What is reached from a place is that place or is reached from the next one. -/
theorem Next.reaches_iff (step : Next profile place next) :
    Reaches profile place later ↔ later = place ∨ Reaches profile next later := by
  constructor
  · intro reached
    rcases reached.cases_head with same | ⟨middle, other, behind⟩
    · exact .inl same.symm
    · exact .inr (step.unique other ▸ behind)
  · rintro (rfl | behind)
    · exact .refl
    · exact .head step behind

/-- A scan goes on from the next place. -/
theorem Next.run_eq {behind : LineScan} {text rest : Text}
    (step : Next profile ⟨scan, text⟩ ⟨behind, rest⟩) (shorter : rest.length < text.length) :
    scan.run profile text = behind.run profile rest := by
  cases step with
  | step taken moved => exact LineScan.run_cons taken moved (.inl shorter)

/-- The next place is behind the lexeme at the place. -/
theorem next_iff (valid : scan.mode.Valid profile) {c : Char} {cs : Text} :
    Next profile ⟨scan, c :: cs⟩ later ↔
      later = ⟨scan.observe profile (profile.lex scan.mode c cs).1,
        (profile.lex scan.mode c cs).2⟩ := by
  obtain ⟨move, taken, moved⟩ := LineScan.step_eq_observe valid c cs
  constructor
  · intro step
    cases step with
    | step taken' moved' =>
        rw [taken] at taken'
        cases taken'
        rw [moved, Option.some.injEq] at moved'
        rw [moved']
  · rintro rfl
    exact .step taken moved

/-- Inside a block comment the closer is looked for first, then an opener that nests. -/
theorem next_block {pair depth : Nat} {delimiters : BlockComment} {text : Text}
    (inside : scan.mode = .block pair depth)
    (listed : profile.blockComments[pair]? = some delimiters)
    (opens : delimiters.nestable = true → delimiters.opener ≠ []) (notEnd : text ≠ []) :
    Next profile ⟨scan, text⟩
      (if delimiters.closer <+: text then
        ⟨{ scan with mode := scan.mode.after .blockCloser }, text.drop delimiters.closer.length⟩
      else if delimiters.nestable = true ∧ delimiters.opener <+: text then
        ⟨{ scan with mode := scan.mode.after .nestedOpener },
          text.drop delimiters.opener.length⟩
      else ⟨scan, text.drop 1⟩) := by
  obtain ⟨c, cs, rfl⟩ := List.exists_cons_of_ne_nil notEnd
  obtain ⟨move, taken, moved⟩ := LineScan.stepBlock_eq_observe inside listed opens c cs
  have stepped : Next profile ⟨scan, c :: cs⟩
      ⟨scan.observe profile (Profile.lexBlock delimiters c cs).1,
        (Profile.lexBlock delimiters c cs).2⟩ := by
    refine .step ?_ moved
    rw [LineScan.step, inside]
    exact taken
  have nests : (delimiters.nestable && !delimiters.opener.isEmpty &&
      delimiters.opener.isPrefixOf (c :: cs)) = true ↔
        delimiters.nestable = true ∧ delimiters.opener <+: c :: cs := by
    simp only [Bool.and_eq_true, Bool.not_eq_true', List.isEmpty_eq_false_iff,
      List.isPrefixOf_iff_prefix]
    exact ⟨fun all => ⟨all.1.1, all.2⟩, fun both => ⟨⟨both.1, opens both.1⟩, both.2⟩⟩
  simp only [Profile.lexBlock, List.isPrefixOf_iff_prefix, nests] at stepped
  split
  · next closes => rwa [if_pos closes] at stepped
  · next notClosed =>
      rw [if_neg notClosed] at stepped
      split
      · next opensHere => rwa [if_pos opensHere] at stepped
      · next plain => rwa [if_neg plain] at stepped

/-- The end of the line is reached only from itself. -/
theorem reaches_nil_iff : Reaches profile ⟨scan, []⟩ later ↔ later = ⟨scan, []⟩ := by
  constructor
  · intro reached
    rcases reached.cases_head with same | ⟨next, step, _⟩
    · exact same.symm
    · exact absurd step (not_next_of_rest_eq_nil scan)
  · rintro rfl
    exact .refl

/-- What is reached from a place is that place or is reached from the one behind its
lexeme. -/
theorem reaches_cons_iff (valid : scan.mode.Valid profile) {c : Char} {cs : Text} :
    Reaches profile ⟨scan, c :: cs⟩ later ↔
      later = ⟨scan, c :: cs⟩ ∨
        Reaches profile ⟨scan.observe profile (profile.lex scan.mode c cs).1,
          (profile.lex scan.mode c cs).2⟩ later :=
  ((next_iff valid).mpr rfl).reaches_iff

/-- What every lexeme preserves at the place where it is met holds at all places that are
reached. -/
theorem preserved_of_reaches {motive : LineScan → Prop}
    (step : ∀ scan c cs, scan.mode.Valid profile → motive scan →
      motive (scan.observe profile (profile.lex scan.mode c cs).1))
    (valid : place.scan.mode.Valid profile) (start : motive place.scan)
    (reached : Reaches profile place later) :
    later.scan.mode.Valid profile ∧ motive later.scan := by
  induction reached with
  | refl => exact ⟨valid, start⟩
  | @tail middle next _ last inductionHypothesis =>
      obtain ⟨middleValid, held⟩ := inductionHypothesis
      obtain ⟨scan, text⟩ := middle
      cases text with
      | nil => exact absurd last (not_next_of_rest_eq_nil scan)
      | cons c cs =>
          have fits := profile.lex_fits scan.mode c cs
          rw [(next_iff middleValid).mp last]
          exact ⟨LineScan.mode_observe fits ▸ middleValid.after fits,
            step scan c cs middleValid held⟩

theorem valid_of_reaches (valid : place.scan.mode.Valid profile)
    (reached : Reaches profile place later) : later.scan.mode.Valid profile :=
  (preserved_of_reaches (motive := fun _ => True) (fun _ _ _ _ _ => trivial) valid trivial
    reached).1

/-- A scan comes to the end of the line, with what `run` has in hand. -/
theorem reaches_run (valid : scan.mode.Valid profile) (text : Text) :
    Reaches profile ⟨scan, text⟩ ⟨scan.run profile text, []⟩ := by
  generalize same : scan.mode = mode at valid
  fun_induction Profile.lexemes profile mode text generalizing scan with
  | case1 =>
      rw [LineScan.run]
  | case2 mode c cs inductionHypothesis =>
      subst same
      have fits := profile.lex_fits scan.mode c cs
      rw [LineScan.run_cons_observe valid]
      refine (reaches_cons_iff valid).mpr (.inr ?_)
      exact inductionHypothesis (LineScan.mode_observe fits) (valid.after fits)

/-- A scan of a line goes on from every place that it comes to. -/
theorem run_eq_of_reaches {text rest : Text} {behind : LineScan} (valid : scan.mode.Valid profile)
    (reached : Reaches profile ⟨scan, text⟩ ⟨behind, rest⟩) :
    scan.run profile text = behind.run profile rest := by
  generalize start : (⟨scan, text⟩ : Place) = place at reached
  induction reached using Relation.ReflTransGen.head_induction_on generalizing scan text with
  | refl =>
      cases start
      rfl
  | @head place next step _ inductionHypothesis =>
      subst start
      cases text with
      | nil => exact absurd step (not_next_of_rest_eq_nil scan)
      | cons c cs =>
          have fits := profile.lex_fits scan.mode c cs
          rw [LineScan.run_cons_observe valid]
          exact inductionHypothesis (LineScan.mode_observe fits ▸ valid.after fits)
            ((next_iff valid).mp step).symm

end Place

/-- The scanner comes to a place when it reads a line.  It comes to none on a line that is
a comment because of its first column. -/
def Scanner.Visits (profile : Profile) (scanner : Scanner) (line : Text) (place : Place) :
    Prop :=
  ¬ (scanner.mode = .code ∧ profile.startsWithColumnOneComment line = true) ∧
    Place.Reaches profile ⟨scanner.beginLine line, line⟩ place

/-- A place on line `n` of a file, counted from zero. -/
def Profile.VisitsOn (profile : Profile) (lines : List Text) (n : Nat) (place : Place) : Prop :=
  ∃ line, lines[n]? = some line ∧
    (Scanner.feedLines profile {} (lines.take n)).Visits profile line place

/-- A place on an earlier line does not depend on the last line. -/
theorem Profile.visitsOn_append_of_lt {profile : Profile} {lines : List Text} {last : Text}
    {n : Nat} {place : Place} (earlier : n < lines.length) :
    profile.VisitsOn (lines ++ [last]) n place ↔ profile.VisitsOn lines n place := by
  rw [VisitsOn, VisitsOn, List.getElem?_append_left earlier,
    List.take_append_of_le_length (Nat.le_of_lt earlier)]

theorem Profile.visitsOn_append_length {profile : Profile} {lines : List Text} {last : Text}
    {place : Place} :
    profile.VisitsOn (lines ++ [last]) lines.length place ↔
      (Scanner.feedLines profile {} lines).Visits profile last place := by
  simp [VisitsOn]

end LineTally
