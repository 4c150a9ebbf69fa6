import LineTally.Proofs.Line.Invariant
import LineTally.Proofs.Line.Region

/-!
# Every line is read to its end

Not every step of the scanner takes something off the line: a closer may be empty.  But a
block comment with an empty closer closes before anything inside it can nest, so its closer
leads to code, and every step in code takes something off the line.  No empty delimiter
opens a region, so a step in any other region takes something off the line too.

Two units of work for every character that is left, and one for an open region, bound the
number of steps whatever the profile is (`Steps.add_work_le`).
-/

namespace LineTally

variable {profile : Profile}

/-! ## Empty closers -/

/-- A block comment with an empty closer is not nested. -/
def Mode.Flat (profile : Profile) : Mode → Prop
  | .block pair depth => ∀ delimiters, profile.blockComments[pair]? = some delimiters →
      delimiters.closer = [] → depth = 1
  | _ => True

/-- An empty closer comes before any opener that nests. -/
theorem Mode.Flat.after_lex {mode : Mode} (flat : mode.Flat profile) (c : Char) (cs : Text) :
    (mode.after (profile.lex mode c cs).1).Flat profile := by
  have fits := profile.lex_fits mode c cs
  generalize met : profile.lex mode c cs = lexed at fits
  obtain ⟨lexeme, rest⟩ := lexed
  cases fits with
  | blockOpener => exact fun _ _ _ => rfl
  | blockText => exact flat
  | nestedOpener depth listed nests =>
      intro delimiters known empty
      simp [Profile.lex, known, Profile.lexBlock, empty] at met
  | blockCloser pair depth =>
      simp only [after]
      split
      · trivial
      · next deep =>
          intro delimiters known empty
          exact absurd (Nat.le_of_eq (flat delimiters known empty)) deep
  | _ => trivial

/-- At every place of a scan a block comment with an empty closer is not nested. -/
theorem Place.flat_of_reaches {place later : Place} (valid : place.scan.mode.Valid profile)
    (flat : place.scan.mode.Flat profile) (reached : Place.Reaches profile place later) :
    later.scan.mode.Valid profile ∧ later.scan.mode.Flat profile := by
  apply preserved_of_reaches (motive := fun scan => scan.mode.Flat profile) ?_ valid flat reached
  intro scan c cs _ flat
  rw [LineScan.mode_observe (profile.lex_fits scan.mode c cs)]
  exact flat.after_lex c cs

/-- Between two lines a block comment with an empty closer is not nested. -/
theorem Scanner.flat_feedLines {scanner : Scanner} (sound : scanner.Sound profile)
    (flat : scanner.mode.Flat profile) (lines : List Text) :
    (scanner.feedLines profile lines).mode.Flat profile := by
  rw [Scanner.feedLines]
  induction lines generalizing scanner with
  | nil => exact flat
  | cons line rest inductionHypothesis =>
      refine inductionHypothesis (sound.feedLine line) ?_
      rw [Scanner.feedLine]
      split
      · exact flat
      · have begun := sound.beginLine line
        rw [LineScan.endLine_eq_settle]
        simp only [LineScan.leave, LineScan.mode_settle]
        exact (Place.flat_of_reaches begun.valid flat (Place.reaches_run begun.valid line)).2

/-! ## Steps -/

namespace Profile

/-- To take a delimiter off a text that is left as it was is to take nothing off it. -/
theorem eq_nil_of_drop_eq_self {delimiter cs : Text} {c : Char}
    (same : (c :: cs).drop delimiter.length = c :: cs) : delimiter = [] := by
  have lengths := congrArg List.length same
  rw [List.length_drop, List.length_cons] at lengths
  exact List.eq_nil_of_length_eq_zero (by omega)

/-- A lexeme takes something off the text, or it is an empty closer and leads to code. -/
theorem lex_shorter_or_closes {mode : Mode} (valid : mode.Valid profile)
    (flat : mode.Flat profile) (c : Char) (cs : Text) :
    (profile.lex mode c cs).2.length < (c :: cs).length ∨
      (profile.lex mode c cs).2 = c :: cs ∧
        mode.after (profile.lex mode c cs).1 = .code ∧
        ∃ pair delimiters, mode = .block pair 1 ∧
          profile.blockComments[pair]? = some delimiters ∧ delimiters.closer = [] := by
  refine (profile.lex_progress mode c cs).imp_right fun ⟨same, closes⟩ => ⟨same, ?_⟩
  have fits := profile.lex_fits mode c cs
  generalize met : profile.lex mode c cs = lexed at fits same closes
  obtain ⟨lexeme, rest⟩ := lexed
  cases same
  cases fits with
  | blockCloser pair depth =>
      obtain ⟨delimiters, listed, _⟩ := valid
      simp only [lex, listed, lexBlock] at met
      split at met
      · have empty := eq_nil_of_drop_eq_self (congrArg Prod.snd met)
        have single := flat delimiters listed empty
        subst single
        exact ⟨rfl, pair, delimiters, rfl, listed, empty⟩
      · split at met <;> cases met
  | quoteCloser quote =>
      obtain ⟨literal, listed, ne⟩ := valid
      simp only [lex, listed, lexString] at met
      split at met
      · cases met
      · split at met
        · exact absurd (eq_nil_of_drop_eq_self (congrArg Prod.snd met)) ne
        · cases met
  | blockOpener => simp [Mode.after, Mode.closers] at closes
  | quoteOpener => simp [Mode.after, Mode.closers] at closes
  | nestedOpener =>
      simp only [Mode.after, Mode.closers] at closes
      omega
  | _ => exact absurd closes (Nat.lt_irrefl _)

end Profile

namespace Place

variable {place next later : Place} {steps : Nat}

/-- Exactly so many steps lead from a place to another. -/
inductive Steps (profile : Profile) : Nat → Place → Place → Prop where
  | refl (place : Place) : Steps profile 0 place place
  | head {steps : Nat} {place next later : Place} :
      Next profile place next → Steps profile steps next later →
        Steps profile (steps + 1) place later

theorem exists_steps_of_reaches (reached : Reaches profile place later) :
    ∃ steps, Steps profile steps place later := by
  induction reached using Relation.ReflTransGen.head_induction_on with
  | refl => exact ⟨0, .refl later⟩
  | head first _ inductionHypothesis =>
      obtain ⟨steps, behind⟩ := inductionHypothesis
      exact ⟨steps + 1, .head first behind⟩

/-- What is left to do: two units for every character, and one for an open region. -/
def work (place : Place) : Nat :=
  2 * place.rest.length + if place.scan.mode = .code then 0 else 1

/-- A step takes something off the line, or it is an empty closer and leads to code. -/
theorem Next.shorter_or_closes (valid : place.scan.mode.Valid profile)
    (flat : place.scan.mode.Flat profile) (step : Next profile place next) :
    next.rest.length < place.rest.length ∨
      next.rest = place.rest ∧ next.scan.mode = .code ∧
        ∃ pair delimiters, place.scan.mode = .block pair 1 ∧
          profile.blockComments[pair]? = some delimiters ∧ delimiters.closer = [] := by
  obtain ⟨scan, text⟩ := place
  cases text with
  | nil => exact absurd step (not_next_of_rest_eq_nil scan)
  | cons c cs =>
      have leads := LineScan.mode_observe (profile.lex_fits scan.mode c cs)
      rw [(next_iff valid).mp step, leads]
      exact Profile.lex_shorter_or_closes valid flat c cs

theorem Next.work_lt (valid : place.scan.mode.Valid profile)
    (flat : place.scan.mode.Flat profile) (step : Next profile place next) :
    next.work < place.work := by
  unfold work
  rcases step.shorter_or_closes valid flat with shorter | ⟨same, toCode, pair, _, inside, _⟩
  · split <;> split <;> omega
  · rw [same, if_pos toCode, inside]
    simp

/-- Of two steps in a row, one takes something off the line. -/
theorem Next.shorter_of_next (valid : place.scan.mode.Valid profile)
    (flat : place.scan.mode.Flat profile) (step : Next profile place next)
    (second : Next profile next later) : later.rest.length < place.rest.length := by
  obtain ⟨nextValid, nextFlat⟩ := flat_of_reaches valid flat (.single step)
  have first := step.shorter_or_closes valid flat
  rcases second.shorter_or_closes nextValid nextFlat with shorter | ⟨same, _, pair, _, inside, _⟩
  · rcases first with shorter' | ⟨same', _⟩
    · exact Nat.lt_trans shorter shorter'
    · exact same' ▸ shorter
  · rcases first with shorter' | ⟨_, toCode, _⟩
    · exact same ▸ shorter'
    · rw [toCode] at inside
      contradiction

/-- Every step leaves less to do. -/
theorem Steps.add_work_le (valid : place.scan.mode.Valid profile)
    (flat : place.scan.mode.Flat profile) (taken : Steps profile steps place later) :
    steps + later.work ≤ place.work := by
  induction taken with
  | refl => exact Nat.le_of_eq (Nat.zero_add _)
  | head first _ inductionHypothesis =>
      obtain ⟨nextValid, nextFlat⟩ := flat_of_reaches valid flat (.single first)
      have less := first.work_lt valid flat
      have bounded := inductionHypothesis nextValid nextFlat
      omega

theorem exists_next (valid : place.scan.mode.Valid profile) (notEnd : place.rest ≠ []) :
    ∃ next, Next profile place next := by
  obtain ⟨scan, text⟩ := place
  obtain ⟨c, cs, rfl⟩ := List.exists_cons_of_ne_nil notEnd
  exact ⟨_, (next_iff valid).mpr rfl⟩

end Place

/-- Whatever the profile is, and whatever lines have been read before, the scanner takes no
more than two steps for every character of a line and one more, and it comes to the end of
the line.  At every place on its way it can go on; a step that takes nothing off the line is
an empty closer that leads to code, and the step behind it takes something off; and no region
whose opener is empty is ever entered. -/
theorem every_line_is_read_to_its_end (profile : Profile) (lines : List Text) (line : Text) :
    let start : Place := ⟨(Scanner.feedLines profile {} lines).beginLine line, line⟩
    (∀ steps later, Place.Steps profile steps start later → steps ≤ 2 * line.length + 1) ∧
      (∃ steps, Place.Steps profile steps start ⟨start.scan.run profile line, []⟩) ∧
      ∀ place, Place.Reaches profile start place →
        (place.rest ≠ [] → ∃ next, Place.Next profile place next) ∧
        (∀ next, Place.Next profile place next →
          next.rest.length < place.rest.length ∨
            next.rest = place.rest ∧ next.scan.mode = .code ∧
              ∃ pair delimiters, place.scan.mode = .block pair 1 ∧
                profile.blockComments[pair]? = some delimiters ∧ delimiters.closer = []) ∧
        (∀ next later, Place.Next profile place next → Place.Next profile next later →
          later.rest.length < place.rest.length) ∧
        ∀ region, place.scan.mode.region? = some region →
          ∃ opener, region.opener? profile = some opener ∧ opener ≠ [] := by
  intro start
  have sound := Scanner.sound_feedLines profile lines
  have valid : start.scan.mode.Valid profile := (sound.beginLine line).valid
  have flat : start.scan.mode.Flat profile :=
    Scanner.flat_feedLines (Scanner.sound_empty profile) trivial lines
  refine ⟨?_, Place.exists_steps_of_reaches (Place.reaches_run valid line), ?_⟩
  · intro steps later taken
    have bounded := taken.add_work_le valid flat
    have started : start.work ≤ 2 * line.length + 1 :=
      Nat.add_le_add_left (by split <;> omega) _
    omega
  · intro place reached
    obtain ⟨placeValid, placeFlat⟩ := Place.flat_of_reaches valid flat reached
    refine ⟨Place.exists_next placeValid, ?_, ?_, ?_⟩
    · intro next step
      exact step.shorter_or_closes placeValid placeFlat
    · intro next later first second
      exact first.shorter_of_next placeValid placeFlat second
    · intro region inside
      exact placeValid.exists_opener inside

/-- Delimiters of which at least one is empty in every pair. -/
def Profile.gaping : Profile :=
  { name := "Gaping"
    blockComments := [⟨['('], [], true⟩, ⟨[], [')'], true⟩]
    quotes := [{ delimiter := [] }] }

/-- The empty closer behind an opener takes one step, and then the line goes on. -/
theorem empty_closer_is_read_once :
    ∃ opened closed behind : Place,
      Place.Steps .gaping 3 ⟨Scanner.beginLine {} ['(', 'x'], ['(', 'x']⟩ behind ∧
        3 ≤ 2 * ['(', 'x'].length + 1 ∧
        Place.Next .gaping opened closed ∧ closed.rest = opened.rest ∧
        Place.Next .gaping closed behind ∧ behind.rest.length < opened.rest.length := by
  let start : LineScan := Scanner.beginLine {} ['(', 'x']
  let opened : LineScan := { start with mode := .block 0 1, current.comment := true }
  let closed : LineScan := { opened with mode := .code }
  have opens : Place.Next .gaping ⟨start, ['(', 'x']⟩ ⟨opened, ['x']⟩ := .step rfl rfl
  have closes : Place.Next .gaping ⟨opened, ['x']⟩ ⟨closed, ['x']⟩ := .step rfl rfl
  have goesOn : Place.Next .gaping ⟨closed, ['x']⟩ ⟨closed.markCode, []⟩ := .step rfl rfl
  have taken := Place.Steps.head opens (.head closes (.head goesOn (.refl _)))
  have whole := every_line_is_read_to_its_end .gaping [] ['(', 'x']
  obtain ⟨_, _, twoSteps, _⟩ := whole.2.2 _ (.single opens)
  exact ⟨_, _, _, taken, whole.1 _ _ taken, closes, rfl, goesOn, twoSteps _ _ closes goesOn⟩

end LineTally
