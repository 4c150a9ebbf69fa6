import LineTally.Proofs.Language.CheckedWidth
import LineTally.Proofs.Line.Invariant
import LineTally.Proofs.Line.Place

/-!
# Character boundaries

A scan of a line can be seen as a cursor that moves over the bytes of the line.  A checked step
cuts the line at the cursor and looks up the open region by its index; it has no result if the
cut falls inside a character or if nothing has that index.

A cursor never comes to such a position: it goes from place to place as the scanner does
(`Cursor.exists_reaches_place`), and in the valid modes of those places the checked step is the
step of the scanner (`LineScan.checkedStep?_eq`).  It also comes to the end of the line, with what
`run` has in hand (`Cursor.exists_ends`).
-/

namespace LineTally

/-! ## Positions in a line -/

namespace Text

/-- What is left of a line from a position on. -/
def Leaves (line : Text) (position : Nat) (rest : Text) : Prop :=
  ∃ passed, line = passed ++ rest ∧ passed.byteSize = position

/-- The position is the start of a character of the line, or its end. -/
def IsBoundary (line : Text) (position : Nat) : Prop :=
  ∃ rest, Leaves line position rest

section Positions

variable {line rest behind : Text} {position width : Nat}

theorem leaves_zero (line : Text) : Leaves line 0 line :=
  ⟨[], rfl, rfl⟩

theorem leaves_of_dropBytes? (dropped : dropBytes? position line = some rest) :
    Leaves line position rest := by
  induction line generalizing position with
  | nil =>
      cases position with
      | zero => exact ⟨[], Option.some.inj dropped, rfl⟩
      | succ position => contradiction
  | cons c line inductionHypothesis =>
      cases position with
      | zero => exact ⟨[], Option.some.inj dropped, rfl⟩
      | succ position =>
          rw [dropBytes?] at dropped
          split at dropped
          · next fits =>
              obtain ⟨passed, rfl, size⟩ := inductionHypothesis dropped
              refine ⟨c :: passed, rfl, ?_⟩
              rw [byteSize_cons, size]
              exact Nat.add_sub_cancel' fits
          · contradiction

theorem Leaves.dropBytes? (leaves : Leaves line position rest) :
    dropBytes? position line = some rest := by
  obtain ⟨passed, rfl, rfl⟩ := leaves
  exact dropBytes?_append passed rest

theorem Leaves.add (leaves : Leaves line position rest) (further : Leaves rest width behind) :
    Leaves line (position + width) behind := by
  obtain ⟨passed, rfl, rfl⟩ := leaves
  obtain ⟨passed', rfl, rfl⟩ := further
  exact ⟨passed ++ passed', (List.append_assoc ..).symm, byteSize_append ..⟩

theorem Leaves.lt_byteSize_iff (leaves : Leaves line position rest) :
    position < line.byteSize ↔ rest ≠ [] := by
  obtain ⟨passed, rfl, rfl⟩ := leaves
  rw [byteSize_append]
  cases rest with
  | nil => simp
  | cons c rest =>
      have positive := c.utf8Size_pos
      rw [byteSize_cons]
      exact iff_of_true (by omega) (List.cons_ne_nil c rest)

theorem IsBoundary.le_byteSize (boundary : IsBoundary line position) :
    position ≤ line.byteSize := by
  obtain ⟨rest, passed, rfl, rfl⟩ := boundary
  rw [byteSize_append]
  exact Nat.le_add_right _ _

end Positions

end Text

/-! ## Checked steps -/

/-- The index of the region that is open is one of the profile. -/
def Mode.InRange (profile : Profile) : Mode → Prop
  | .code => True
  | .block pair _ => pair < profile.blockComments.length
  | .string quote => quote < profile.quotes.length

theorem Mode.Valid.inRange {profile : Profile} {mode : Mode} (valid : mode.Valid profile) :
    mode.InRange profile := by
  cases mode with
  | code => trivial
  | block pair depth =>
      obtain ⟨delimiters, listed, -⟩ := valid
      exact (List.getElem?_eq_some_iff.mp listed).1
  | string quote =>
      obtain ⟨literal, listed, -⟩ := valid
      exact (List.getElem?_eq_some_iff.mp listed).1

namespace LineScan

/-- A step in code that checks what it uses. -/
def checkedStepCode? (profile : Profile) (scan : LineScan) (rest : Text) :
    Option (LineScan × Move) :=
  (profile.checkedOpener? rest).bind fun
    | some (_, .line _) => some ({ scan with current.comment := true }, .endOfLine)
    | some (_, .block pair) =>
        profile.blockComments[pair]?.map fun delimiters =>
          ({ scan with
              current.comment := true
              mode := .block pair 1
              regionLine := scan.line },
            .advance delimiters.opener.byteSize)
    | some (_, .quote quote) =>
        profile.quotes[quote]?.map fun literal =>
          (scan.openQuote profile quote, .advance literal.delimiter.byteSize)
    | some (_, .charLiteral width) => some (scan.markCode, .advance width)
    | none =>
        let first := rest.headD ' '
        some (if isBlank first then scan else scan.markCode, .advance first.utf8Size)

/-- A step in a block comment that checks what it uses. -/
def checkedStepBlock? (profile : Profile) (pair depth : Nat) (scan : LineScan) (rest : Text) :
    Option (LineScan × Move) :=
  profile.blockComments[pair]?.map fun delimiters =>
    if delimiters.closer.isPrefixOf rest then
      ({ scan with mode := if depth ≤ 1 then .code else .block pair (depth - 1) },
        .advance delimiters.closer.byteSize)
    else if delimiters.nestable && delimiters.opener.isPrefixOf rest then
      ({ scan with mode := .block pair (depth + 1) }, .advance delimiters.opener.byteSize)
    else (scan, .advance (rest.headD ' ').utf8Size)

/-- A step in a string literal that checks what it uses. -/
def checkedStepString? (profile : Profile) (quote : Nat) (scan : LineScan) (rest : Text) :
    Option (LineScan × Move) :=
  profile.quotes[quote]?.bind fun literal =>
    match literal.escape.filter (rest.head? = some ·) with
    | some escape =>
        (Text.dropBytes? escape.utf8Size rest).map fun behind =>
          (scan, .advance (escape.utf8Size + behind.firstWidth))
    | none =>
        some
          (if literal.delimiter.isPrefixOf rest then
            ({ scan with mode := .code, doc := scan.doc.close },
              .advance literal.delimiter.byteSize)
          else (scan, .advance (rest.headD ' ').utf8Size))

/-- A step at a position of a line that checks what it uses. -/
def checkedStep? (profile : Profile) (scan : LineScan) (line : Text) (position : Nat) :
    Option (LineScan × Move) :=
  (Text.dropBytes? position line).bind fun rest =>
    match scan.mode with
    | .code => scan.checkedStepCode? profile rest
    | .block pair depth => scan.checkedStepBlock? profile pair depth rest
    | .string quote => scan.checkedStepString? profile quote rest

variable {profile : Profile} {scan : LineScan}

theorem checkedStepCode?_eq (profile : Profile) (scan : LineScan) (c : Char) (cs : Text) :
    scan.checkedStepCode? profile (c :: cs) = some (scan.stepCode profile (c :: cs)) := by
  rw [checkedStepCode?, Profile.checkedOpener?_eq, Option.bind_some, stepCode]
  cases found : profile.longestOpener (c :: cs) with
  | none => rfl
  | some best =>
      obtain ⟨width, opener⟩ := best
      obtain ⟨opened, opens, rfl⟩ := Profile.mem_candidates_iff.mp (Profile.mem_of_widest found)
      cases opens with
      | block listed =>
          simp only [listed, Option.map_some]
      | quote listed =>
          simp only [listed, Option.map_some]
      | line => rfl
      | charLiteral => rfl

theorem checkedStepBlock?_eq {pair : Nat} {delimiters : BlockComment}
    (listed : profile.blockComments[pair]? = some delimiters) (depth : Nat) (c : Char) (cs : Text) :
    scan.checkedStepBlock? profile pair depth (c :: cs) =
      some (scan.stepBlock profile pair depth (c :: cs)) := by
  rw [checkedStepBlock?, stepBlock, listed]
  rfl

theorem checkedStepString?_eq {quote : Nat} {literal : Quote}
    (listed : profile.quotes[quote]? = some literal) (c : Char) (cs : Text) :
    scan.checkedStepString? profile quote (c :: cs) =
      some (scan.stepString profile quote (c :: cs)) := by
  rw [checkedStepString?, stepString, listed, Option.bind_some]
  simp only [escapes_iff]
  by_cases escaped : literal.escape = some c
  · have chosen : literal.escape.filter ((c :: cs).head? = some ·) = some c := by
      rw [escaped]
      exact Option.filter_some_pos (decide_eq_true rfl)
    have behind : Text.dropBytes? c.utf8Size (c :: cs) = some cs := Text.dropBytes?_append [c] cs
    rw [chosen, if_pos escaped]
    simp only [behind, Option.map_some]
    rfl
  · have chosen : literal.escape.filter ((c :: cs).head? = some ·) = none := by
      apply Option.filter_eq_none_iff.mpr
      intro escape isEscape first
      rw [isEscape] at escaped
      exact escaped (of_decide_eq_true first).symm
    rw [chosen, if_neg escaped]
    rfl

/-- In a valid mode nothing that a step uses is missing. -/
theorem checkedStep?_eq (valid : scan.mode.Valid profile) {line rest : Text} {position : Nat}
    (leaves : Text.Leaves line position rest) (notEnd : rest ≠ []) :
    scan.checkedStep? profile line position = some (scan.step profile rest) := by
  obtain ⟨c, cs, rfl⟩ := List.exists_cons_of_ne_nil notEnd
  rw [checkedStep?, leaves.dropBytes?, Option.bind_some, step]
  cases inside : scan.mode with
  | code => exact checkedStepCode?_eq profile scan c cs
  | block pair depth =>
      rw [inside] at valid
      obtain ⟨delimiters, listed, -⟩ := valid
      exact checkedStepBlock?_eq listed depth c cs
  | string quote =>
      rw [inside] at valid
      obtain ⟨literal, listed, -⟩ := valid
      exact checkedStepString?_eq listed c cs

/-- A step leads to a boundary. -/
theorem isBoundary_of_step (valid : scan.mode.Valid profile) {line rest : Text}
    {position width : Nat} {next : LineScan} (leaves : Text.Leaves line position rest)
    (notEnd : rest ≠ []) (taken : scan.step profile rest = (next, .advance width)) :
    line.IsBoundary (position + width) := by
  obtain ⟨c, cs, rfl⟩ := List.exists_cons_of_ne_nil notEnd
  obtain ⟨move, observed, moved⟩ := step_eq_observe valid c cs
  obtain ⟨-, rfl⟩ := Prod.mk.inj (observed.symm.trans taken)
  exact ⟨_, leaves.add (Text.leaves_of_dropBytes? moved)⟩

end LineScan

/-! ## The cursor -/

/-- A scan that stands at a position of a line. -/
structure Cursor where
  scan : LineScan
  position : Nat

namespace Cursor

/-- Before the end of the line, a checked step moves the cursor. -/
inductive Next (profile : Profile) (line : Text) : Cursor → Cursor → Prop where
  | advance {scan next : LineScan} {position width : Nat} : position < line.byteSize →
      scan.checkedStep? profile line position = some (next, .advance width) →
        Next profile line ⟨scan, position⟩ ⟨next, position + width⟩

/-- Some steps, perhaps none, lead from a cursor to another. -/
abbrev Reaches (profile : Profile) (line : Text) : Cursor → Cursor → Prop :=
  Relation.ReflTransGen (Next profile line)

/-- The scan of the line ends here, with this in hand. -/
inductive Ends (profile : Profile) (line : Text) : Cursor → LineScan → Prop where
  | atEnd {scan : LineScan} {position : Nat} : line.byteSize ≤ position →
      Ends profile line ⟨scan, position⟩ scan
  | endOfLine {scan last : LineScan} {position : Nat} : position < line.byteSize →
      scan.checkedStep? profile line position = some (last, .endOfLine) →
        Ends profile line ⟨scan, position⟩ last

variable {profile : Profile} {scan : LineScan} {line rest : Text} {cursor next : Cursor}

/-- A step of the cursor leads from place to place. -/
theorem Next.exists_next_place (step : Next profile line cursor next)
    (valid : cursor.scan.mode.Valid profile) (leaves : Text.Leaves line cursor.position rest) :
    ∃ behind, Text.Leaves line next.position behind ∧
      Place.Next profile ⟨cursor.scan, rest⟩ ⟨next.scan, behind⟩ := by
  cases step with
  | @advance scan next position width within checked =>
      have notEnd : rest ≠ [] := leaves.lt_byteSize_iff.mp within
      rw [LineScan.checkedStep?_eq valid leaves notEnd, Option.some.injEq] at checked
      obtain ⟨c, cs, rfl⟩ := List.exists_cons_of_ne_nil notEnd
      obtain ⟨move, taken, moved⟩ := LineScan.step_eq_observe valid c cs
      obtain ⟨-, rfl⟩ := Prod.mk.inj (taken.symm.trans checked)
      exact ⟨_, leaves.add (Text.leaves_of_dropBytes? moved), .step checked moved⟩

/-- Wherever the cursor comes to, the scanner comes to with what is left of the line. -/
theorem exists_reaches_place (valid : scan.mode.Valid profile)
    (reached : Reaches profile line ⟨scan, 0⟩ cursor) :
    ∃ rest, Text.Leaves line cursor.position rest ∧
      Place.Reaches profile ⟨scan, line⟩ ⟨cursor.scan, rest⟩ := by
  induction reached with
  | refl => exact ⟨line, Text.leaves_zero line, .refl⟩
  | tail _ step inductionHypothesis =>
      obtain ⟨rest, leaves, before⟩ := inductionHypothesis
      obtain ⟨behind, leaves', placeStep⟩ :=
        step.exists_next_place (Place.valid_of_reaches valid before) leaves
      exact ⟨behind, leaves', before.tail placeStep⟩

/-- Wherever the scanner comes to, the cursor comes to, or a step has passed over what is left of
the line. -/
theorem exists_reaches_of_place (valid : scan.mode.Valid profile) {place : Place}
    (reached : Place.Reaches profile ⟨scan, line⟩ place) :
    ∃ cursor, Reaches profile line ⟨scan, 0⟩ cursor ∧
      (cursor.scan = place.scan ∧ Text.Leaves line cursor.position place.rest ∨
        place.rest = [] ∧ Ends profile line cursor place.scan) := by
  induction reached with
  | refl => exact ⟨⟨scan, 0⟩, .refl, .inl ⟨rfl, Text.leaves_zero line⟩⟩
  | tail before step inductionHypothesis =>
      obtain ⟨⟨scan', position⟩, reached, ⟨rfl, leaves⟩ | ⟨atEnd, -⟩⟩ := inductionHypothesis
      · cases step with
        | @step scan next move c cs behind taken moved =>
            have within : position < line.byteSize :=
              leaves.lt_byteSize_iff.mpr (List.cons_ne_nil c cs)
            have checked := LineScan.checkedStep?_eq (Place.valid_of_reaches valid before) leaves
              (List.cons_ne_nil c cs)
            rw [taken] at checked
            cases move with
            | advance width =>
                refine ⟨_, reached.tail (.advance within checked), .inl ⟨rfl, ?_⟩⟩
                exact leaves.add (Text.leaves_of_dropBytes? moved)
            | endOfLine =>
                exact ⟨_, reached, .inr ⟨(Option.some.inj moved).symm, .endOfLine within checked⟩⟩
      · cases step with
        | step => contradiction

/-- The cursor comes to the end of the line. -/
theorem exists_ends (valid : scan.mode.Valid profile) (line : Text) :
    ∃ cursor, Reaches profile line ⟨scan, 0⟩ cursor ∧
      Ends profile line cursor (scan.run profile line) := by
  obtain ⟨⟨last, position⟩, reached, ⟨rfl, leaves⟩ | ⟨-, ends⟩⟩ :=
    exists_reaches_of_place valid (Place.reaches_run valid line)
  · have atEnd : ¬ position < line.byteSize := fun within => leaves.lt_byteSize_iff.mp within rfl
    exact ⟨_, reached, .atEnd (Nat.not_lt.mp atEnd)⟩
  · exact ⟨_, reached, ends⟩

end Cursor

/-- Whatever the profile, the lines before and the line, the cursor stands on a boundary wherever
it comes to, and the index of the region that is open there is in range.  Before the end of the
line the checked step, which has a result only if it cuts texts on boundaries, has that of the
scanner at what is left of the line; and if this moves on, then by a width that leads to a boundary,
not past the end of the line.  So the scan of the line ends, with what `run` has in hand.  Behind
the last line the index of an open region is in range as well. -/
theorem every_step_lands_on_a_boundary (profile : Profile) (lines : List Text) :
    (∀ n line, lines[n]? = some line →
      let start := (Scanner.feedLines profile {} (lines.take n)).beginLine line
      (∀ cursor, Cursor.Reaches profile line ⟨start, 0⟩ cursor →
        Text.IsBoundary line cursor.position ∧ cursor.scan.mode.InRange profile ∧
          (cursor.position < line.byteSize →
            ∃ rest next move, Text.Leaves line cursor.position rest ∧
              cursor.scan.step profile rest = (next, move) ∧
              cursor.scan.checkedStep? profile line cursor.position = some (next, move) ∧
              ∀ width, move = .advance width →
                cursor.position + width ≤ line.byteSize ∧
                  Text.IsBoundary line (cursor.position + width))) ∧
      ∃ cursor, Cursor.Reaches profile line ⟨start, 0⟩ cursor ∧
        Cursor.Ends profile line cursor (start.run profile line)) ∧
    (Scanner.feedLines profile {} lines).mode.InRange profile := by
  constructor
  · intro n line _ start
    have valid : start.mode.Valid profile :=
      ((Scanner.sound_feedLines profile (lines.take n)).beginLine line).valid
    refine ⟨?_, Cursor.exists_ends valid line⟩
    intro cursor reached
    obtain ⟨rest, leaves, place⟩ := Cursor.exists_reaches_place valid reached
    have reachedValid := Place.valid_of_reaches valid place
    refine ⟨⟨rest, leaves⟩, reachedValid.inRange, ?_⟩
    intro within
    have notEnd : rest ≠ [] := leaves.lt_byteSize_iff.mp within
    refine ⟨rest, _, _, leaves, rfl, LineScan.checkedStep?_eq reachedValid leaves notEnd, ?_⟩
    intro width advances
    have boundary : line.IsBoundary (cursor.position + width) :=
      LineScan.isBoundary_of_step reachedValid leaves notEnd (Prod.ext rfl advances)
    exact ⟨boundary.le_byteSize, boundary⟩
  · exact (Scanner.sound_feedLines profile lines).valid.inRange

/-- A language whose quotes are two bytes wide. -/
def Profile.wide : Profile :=
  { name := "wide", quotes := [{ delimiter := "«".toList, escape := some '\\' }] }

/-- An escape takes a character of two bytes with it, and then a quote closes the literal. -/
theorem quote_behind_escape_lands_on_a_boundary :
    let line : Text := "\\é«".toList
    let start := (Scanner.feedLines .wide {} ["«x".toList]).beginLine line
    ["«x".toList, line][1]? = some line ∧ Cursor.Reaches .wide line ⟨start, 0⟩ ⟨start, 3⟩ ∧
      3 < line.byteSize ∧
      start.checkedStep? .wide line 3 = some ({ start with mode := .code }, .advance 2) ∧
      3 + 2 ≤ line.byteSize ∧ Text.IsBoundary line (3 + 2) := by
  intro line start
  have found : ["«x".toList, line][1]? = some line := rfl
  have escaped : start.checkedStep? .wide line 0 = some (start, .advance 3) := by decide +kernel
  have closed : start.checkedStep? .wide line 3 =
      some ({ start with mode := .code }, .advance 2) := by
    decide +kernel
  have reached : Cursor.Reaches .wide line ⟨start, 0⟩ ⟨start, 3⟩ :=
    .single (.advance (by decide +kernel) escaped)
  have within : 3 < line.byteSize := by decide +kernel
  have onLine := (every_step_lands_on_a_boundary .wide ["«x".toList, line]).1 1 line found
  obtain ⟨rest, next, move, -, -, checked, lands⟩ := (onLine.1 _ reached).2.2 within
  obtain ⟨-, advances⟩ := Prod.mk.inj (Option.some.inj (checked.symm.trans closed))
  exact ⟨found, reached, within, closed, lands 2 advances⟩

end LineTally
