import LineTally.Proofs.Line.Place
import LineTally.Proofs.Line.Splitting
import Mathlib.Algebra.Group.Nat.Even
import Mathlib.Data.List.DropRight

/-!
# Where a region closes

In a string literal, and in a block comment that does not nest, the scanner takes note of
nothing until it comes to the closer.  An escape takes the next character of the line with
it, so whether the scanner stops at a closer depends on what it has passed over: it does just
if an even number of escapes stands in a row before the closer (`Encloses.step`).  This can be
read off the line alone, wherever on the line the region began.
-/

namespace LineTally

namespace Text

theorem head?_of_prefix_cons {delimiter text : Text} {c : Char} (nonempty : delimiter ≠ [])
    (stands : delimiter <+: c :: text) : delimiter.head? = some c := by
  obtain ⟨first, more, rfl⟩ := List.exists_cons_of_ne_nil nonempty
  rw [List.head?_cons, (List.cons_prefix_cons.mp stands).1]

/-- How many escapes stand in a row at the end of a text. -/
def escapesAtEnd (escape : Option Char) (text : Text) : Nat :=
  (text.rtakeWhile fun c => decide (escape = some c)).length

/-- The delimiter stands at position `i`, and the escapes in a row before it are even in
number. -/
def UnescapedAt (delimiter : Text) (escape : Option Char) (text : Text) (i : Nat) : Prop :=
  delimiter <+: text.drop i ∧ Even (escapesAtEnd escape (text.take i))

instance (delimiter : Text) (escape : Option Char) (text : Text) (i : Nat) :
    Decidable (UnescapedAt delimiter escape text i) :=
  inferInstanceAs (Decidable (_ ∧ _))

variable {delimiter : Text} {escape : Option Char} {before text : Text} {c : Char} {i : Nat}

theorem escapesAtEnd_concat (escape : Option Char) (text : Text) (c : Char) :
    escapesAtEnd escape (text ++ [c]) =
      if escape = some c then escapesAtEnd escape text + 1 else 0 := by
  rw [escapesAtEnd, List.rtakeWhile_concat]
  by_cases isEscape : escape = some c <;> simp [isEscape, escapesAtEnd]

/-- Behind an even number of escapes the count begins afresh. -/
theorem even_escapesAtEnd_append (even : Even (escapesAtEnd escape before)) (text : Text) :
    Even (escapesAtEnd escape (before ++ text)) ↔ Even (escapesAtEnd escape text) := by
  induction text using List.reverseRecOn with
  | nil => simpa [escapesAtEnd] using even
  | append_singleton text c inductionHypothesis =>
      rw [← List.append_assoc, escapesAtEnd_concat, escapesAtEnd_concat]
      split
      · rw [Nat.even_add_one, Nat.even_add_one, inductionHypothesis]
      · rfl

theorem unescapedAt_append (even : Even (escapesAtEnd escape before)) :
    UnescapedAt delimiter escape (before ++ text) (before.length + i) ↔
      UnescapedAt delimiter escape text i := by
  rw [UnescapedAt, List.drop_length_add_append, List.take_length_add_append,
    even_escapesAtEnd_append even, UnescapedAt]

theorem unescapedAt_zero_iff :
    UnescapedAt delimiter escape text 0 ↔ delimiter <+: text := by
  simp [UnescapedAt, escapesAtEnd]

theorem not_unescapedAt_nil (nonempty : delimiter ≠ []) :
    ¬ UnescapedAt delimiter escape [] i := by
  rintro ⟨stands, _⟩
  rw [List.drop_nil, List.prefix_nil] at stands
  exact nonempty stands

/-- The closer does not begin with the escape. -/
theorem not_unescapedAt_zero (nonempty : delimiter ≠ []) (distinct : delimiter.head? ≠ some c) :
    ¬ UnescapedAt delimiter escape (c :: text) 0 :=
  fun unescaped => distinct (head?_of_prefix_cons nonempty (unescapedAt_zero_iff.mp unescaped))

theorem not_unescapedAt_lone_escape (nonempty : delimiter ≠ [])
    (distinct : delimiter.head? ≠ some c) : ¬ UnescapedAt delimiter escape [c] i := by
  cases i with
  | zero => exact not_unescapedAt_zero nonempty distinct
  | succ i =>
      rintro ⟨stands, _⟩
      rw [List.drop_succ_cons, List.drop_nil, List.prefix_nil] at stands
      exact nonempty stands

theorem UnescapedAt.lt_length (unescaped : UnescapedAt delimiter escape text i)
    (nonempty : delimiter ≠ []) : i < text.length := by
  by_contra beyond
  have stands := unescaped.1
  rw [List.drop_of_length_le (Nat.le_of_not_lt beyond), List.prefix_nil] at stands
  exact nonempty stands

/-- A character that is no escape takes nothing with it. -/
theorem unescapedAt_cons_iff (notEscape : escape ≠ some c) (notHere : ¬ delimiter <+: c :: text) :
    UnescapedAt delimiter escape (c :: text) i ↔
      ∃ j, i = 1 + j ∧ UnescapedAt delimiter escape text j := by
  have even : Even (escapesAtEnd escape [c]) := by
    rw [← List.nil_append [c], escapesAtEnd_concat, if_neg notEscape]
    exact Even.zero
  constructor
  · intro unescaped
    cases i with
    | zero => exact absurd (unescapedAt_zero_iff.mp unescaped) notHere
    | succ j =>
        rw [Nat.add_comm] at unescaped
        exact ⟨j, Nat.add_comm j 1, (unescapedAt_append even).mp unescaped⟩
  · rintro ⟨j, rfl, unescaped⟩
    exact (unescapedAt_append even).mpr unescaped

/-- An escape takes the next character with it. -/
theorem unescapedAt_escape_iff (isEscape : escape = some c) (nonempty : delimiter ≠ [])
    (distinct : delimiter.head? ≠ some c) (d : Char) :
    UnescapedAt delimiter escape (c :: d :: text) i ↔
      ∃ j, i = 2 + j ∧ UnescapedAt delimiter escape text j := by
  have even : Even (escapesAtEnd escape [c, d]) := by
    rw [show [c, d] = [] ++ [c] ++ [d] from rfl, escapesAtEnd_concat, escapesAtEnd_concat,
      if_pos isEscape]
    split
    · exact ⟨1, rfl⟩
    · exact Even.zero
  constructor
  · intro unescaped
    match i with
    | 0 => exact absurd unescaped (not_unescapedAt_zero nonempty distinct)
    | 1 =>
        have odd : ¬ Even (escapesAtEnd escape [c]) := by
          rw [← List.nil_append [c], escapesAtEnd_concat, if_pos isEscape]
          exact Nat.not_even_one
        exact absurd unescaped.2 odd
    | j + 2 =>
        rw [Nat.add_comm] at unescaped
        exact ⟨j, Nat.add_comm j 2, (unescapedAt_append even).mp unescaped⟩
  · rintro ⟨j, rfl, unescaped⟩
    exact (unescapedAt_append even).mpr unescaped

end Text

namespace LineScan

variable {profile : Profile} {scan next : LineScan} {closer text : Text} {escape : Option Char}
  {i width : Nat}

/-- The scan stays as it is up to position `i` of the text.  There it reads so many
characters, and goes on behind them as `next`. -/
structure LeavesAt (profile : Profile) (scan next : LineScan) (text : Text) (i width : Nat) :
    Prop where
  reaches : Place.Reaches profile ⟨scan, text⟩ ⟨scan, text.drop i⟩
  leaves : Place.Next profile ⟨scan, text.drop i⟩ ⟨next, text.drop (i + width)⟩
  before : ∀ place, Place.Reaches profile ⟨scan, text⟩ place →
    (∃ j ≤ i, place = ⟨scan, text.drop j⟩) ∨
      Place.Reaches profile ⟨next, text.drop (i + width)⟩ place
  run_eq : scan.run profile text = next.run profile (text.drop (i + width))

/-- The scan stays as it is up to the end of the text. -/
structure Keeps (profile : Profile) (scan : LineScan) (text : Text) : Prop where
  everywhere : ∀ place, Place.Reaches profile ⟨scan, text⟩ place → place.scan = scan
  run_eq : scan.run profile text = scan

theorem LeavesAt.here (leaves : Place.Next profile ⟨scan, text⟩ ⟨next, text.drop width⟩)
    (notEnd : text ≠ []) (positive : 0 < width) : scan.LeavesAt profile next text 0 width := by
  rw [← Nat.zero_add width] at leaves
  constructor
  case reaches => exact .refl
  case leaves => exact leaves
  case before =>
    intro place reached
    rcases leaves.reaches_iff.mp reached with rfl | behind
    · exact .inl ⟨0, Nat.le_refl 0, rfl⟩
    · exact .inr behind
  case run_eq =>
    apply leaves.run_eq
    have length := List.length_pos_iff.mpr notEnd
    rw [List.length_drop]
    omega

/-- What is passed over first puts the position off. -/
theorem LeavesAt.pass {before : Text}
    (step : Place.Next profile ⟨scan, before ++ text⟩ ⟨scan, text⟩) (notEmpty : before ≠ [])
    (leavesAt : scan.LeavesAt profile next text i width) :
    scan.LeavesAt profile next (before ++ text) (before.length + i) width := by
  have dropped (j : Nat) : (before ++ text).drop (before.length + j) = text.drop j :=
    List.drop_length_add_append j
  have behind : (before ++ text).drop (before.length + i + width) = text.drop (i + width) := by
    rw [Nat.add_assoc, dropped]
  constructor
  case reaches =>
    rw [dropped]
    exact .head step leavesAt.reaches
  case leaves =>
    rw [dropped, behind]
    exact leavesAt.leaves
  case before =>
    intro place reached
    rw [behind]
    rcases step.reaches_iff.mp reached with rfl | reached'
    · exact .inl ⟨0, Nat.zero_le _, rfl⟩
    · rcases leavesAt.before place reached' with ⟨j, le, rfl⟩ | left
      · exact .inl ⟨before.length + j, Nat.add_le_add_left le _, by rw [dropped]⟩
      · exact .inr left
  case run_eq =>
    rw [behind, ← leavesAt.run_eq]
    apply step.run_eq
    have length := List.length_pos_iff.mpr notEmpty
    rw [List.length_append]
    omega

theorem keeps_nil (profile : Profile) (scan : LineScan) : scan.Keeps profile [] := by
  constructor
  case everywhere =>
    intro place reached
    rw [Place.reaches_nil_iff.mp reached]
  case run_eq => rw [run]

theorem Keeps.pass {before : Text} (step : Place.Next profile ⟨scan, before ++ text⟩ ⟨scan, text⟩)
    (notEmpty : before ≠ []) (keeps : scan.Keeps profile text) :
    scan.Keeps profile (before ++ text) := by
  constructor
  case everywhere =>
    intro place reached
    rcases step.reaches_iff.mp reached with rfl | behind
    · rfl
    · exact keeps.everywhere place behind
  case run_eq =>
    rw [step.run_eq ?_, keeps.run_eq]
    have length := List.length_pos_iff.mpr notEmpty
    rw [List.length_append]
    omega

/-! ## Regions that do not nest -/

/-- The scan is inside a region that does not nest: an escape takes the next character with
it, the closer leads to `next`, and any other character is passed over. -/
structure Encloses (profile : Profile) (scan next : LineScan) (closer : Text)
    (escape : Option Char) : Prop where
  escapes : ∀ c cs, escape = some c → Place.Next profile ⟨scan, c :: cs⟩ ⟨scan, cs.drop 1⟩
  closes : ∀ c cs, escape ≠ some c → closer <+: c :: cs →
    Place.Next profile ⟨scan, c :: cs⟩ ⟨next, (c :: cs).drop closer.length⟩
  passes : ∀ c cs, escape ≠ some c → ¬ closer <+: c :: cs →
    Place.Next profile ⟨scan, c :: cs⟩ ⟨scan, cs⟩
  nonempty : closer ≠ []
  distinct : ∀ c, escape = some c → closer.head? ≠ some c

/-- One step stands before a closer that is not escaped, or it passes over some text without
coming past such a closer. -/
theorem Encloses.step (encloses : scan.Encloses profile next closer escape) (notEnd : text ≠ []) :
    (Text.UnescapedAt closer escape text 0 ∧
      Place.Next profile ⟨scan, text⟩ ⟨next, text.drop closer.length⟩) ∨
    ∃ before rest, text = before ++ rest ∧ before ≠ [] ∧
      Place.Next profile ⟨scan, text⟩ ⟨scan, rest⟩ ∧
      ∀ i, Text.UnescapedAt closer escape text i ↔
        ∃ j, i = before.length + j ∧ Text.UnescapedAt closer escape rest j := by
  obtain ⟨c, cs, rfl⟩ := List.exists_cons_of_ne_nil notEnd
  by_cases isEscape : escape = some c
  · right
    have step := encloses.escapes c cs isEscape
    have distinct := encloses.distinct c isEscape
    cases cs with
    | nil =>
        refine ⟨[c], [], rfl, List.cons_ne_nil c [], step, fun i => ?_⟩
        apply iff_of_false (Text.not_unescapedAt_lone_escape encloses.nonempty distinct)
        rintro ⟨j, _, unescaped⟩
        exact Text.not_unescapedAt_nil encloses.nonempty unescaped
    | cons d ds =>
        refine ⟨[c, d], ds, rfl, List.cons_ne_nil c [d], step, fun i => ?_⟩
        exact Text.unescapedAt_escape_iff isEscape encloses.nonempty distinct d
  · by_cases closes : closer <+: c :: cs
    · exact .inl ⟨Text.unescapedAt_zero_iff.mpr closes, encloses.closes c cs isEscape closes⟩
    · refine .inr ⟨[c], cs, rfl, List.cons_ne_nil c [], encloses.passes c cs isEscape closes,
        fun i => ?_⟩
      exact Text.unescapedAt_cons_iff isEscape closes

/-- The region ends at the first closer that is not escaped. -/
theorem Encloses.leavesAt (encloses : scan.Encloses profile next closer escape)
    (unescaped : Text.UnescapedAt closer escape text i)
    (first : ∀ j < i, ¬ Text.UnescapedAt closer escape text j) :
    scan.LeavesAt profile next text i closer.length := by
  induction length : text.length using Nat.strong_induction_on generalizing text i with
  | _ n inductionHypothesis =>
      have notEnd : text ≠ [] := by
        rintro rfl
        exact Text.not_unescapedAt_nil encloses.nonempty unescaped
      rcases encloses.step notEnd with ⟨here, closes⟩ | ⟨before, rest, rfl, notEmpty, step, behind⟩
      · have atStart : i = 0 := by
          by_contra later
          exact first 0 (Nat.pos_of_ne_zero later) here
        subst atStart
        exact .here closes notEnd (List.length_pos_iff.mpr encloses.nonempty)
      · obtain ⟨j, rfl, unescaped'⟩ := (behind i).mp unescaped
        apply LeavesAt.pass step notEmpty
        refine inductionHypothesis rest.length ?_ unescaped' ?_ rfl
        · have positive := List.length_pos_iff.mpr notEmpty
          rw [← length, List.length_append]
          omega
        · intro k earlier unescaped''
          exact first (before.length + k) (Nat.add_lt_add_left earlier _)
            ((behind _).mpr ⟨k, rfl, unescaped''⟩)

/-- Where no closer is found the region goes on. -/
theorem Encloses.keeps (encloses : scan.Encloses profile next closer escape)
    (none : ∀ i, ¬ Text.UnescapedAt closer escape text i) : scan.Keeps profile text := by
  induction length : text.length using Nat.strong_induction_on generalizing text with
  | _ n inductionHypothesis =>
      by_cases notEnd : text = []
      · rw [notEnd]
        exact keeps_nil profile scan
      · rcases encloses.step notEnd with ⟨here, _⟩ | ⟨before, rest, rfl, notEmpty, step, behind⟩
        · exact absurd here (none 0)
        · apply Keeps.pass step notEmpty
          refine inductionHypothesis rest.length ?_ ?_ rfl
          · have positive := List.length_pos_iff.mpr notEmpty
            rw [← length, List.length_append]
            omega
          · exact fun j unescaped => none _ ((behind _).mpr ⟨j, rfl, unescaped⟩)

/-! ## String literals -/

/-- A string literal is read up to its delimiter, and nothing else in it counts. -/
theorem encloses_string {quote : Nat} {literal : Quote}
    (listed : profile.quotes[quote]? = some literal) (nonempty : literal.delimiter ≠ [])
    (distinct : ∀ escape, literal.escape = some escape → literal.delimiter.head? ≠ some escape)
    (inside : scan.mode = .string quote) :
    scan.Encloses profile { scan with mode := .code, doc := scan.doc.close } literal.delimiter
      literal.escape := by
  have valid : scan.mode.Valid profile := by
    rw [inside]
    exact ⟨literal, listed, nonempty⟩
  have lexed (c : Char) (cs : Text) :
      profile.lex scan.mode c cs = Profile.lexString literal c cs := by
    simp only [Profile.lex, inside, listed]
  constructor
  case escapes =>
    intro c cs isEscape
    rw [Place.next_iff valid, lexed, Profile.lexString, if_pos isEscape]
    rfl
  case closes =>
    intro c cs notEscape closes
    rw [Place.next_iff valid, lexed, Profile.lexString, if_neg notEscape,
      if_pos (List.isPrefixOf_iff_prefix.mpr closes)]
    rfl
  case passes =>
    intro c cs notEscape notClosed
    rw [Place.next_iff valid, lexed, Profile.lexString, if_neg notEscape,
      if_neg (mt List.isPrefixOf_iff_prefix.mp notClosed)]
    rfl
  case nonempty => exact nonempty
  case distinct => exact distinct

end LineScan

/-- A string literal closes at its first delimiter before which the escapes in a row are even
in number: up to there the scanner takes note of nothing, and it goes on in code behind the
delimiter.  Where there is no such delimiter the literal goes on to the next line.  There the
count begins afresh, so that a delimiter at the start of a line closes the literal whatever
stands at the end of the line before. -/
theorem literal_closes_at_first_unescaped_delimiter {profile : Profile} {quote : Nat}
    {literal : Quote} (listed : profile.quotes[quote]? = some literal)
    (nonempty : literal.delimiter ≠ [])
    (distinct : ∀ escape, literal.escape = some escape →
      literal.delimiter.head? ≠ some escape) :
    (∀ (scan : LineScan) (rest : Text), scan.mode = .string quote →
      (∀ i, Text.UnescapedAt literal.delimiter literal.escape rest i →
        (∀ j < i, ¬ Text.UnescapedAt literal.delimiter literal.escape rest j) →
          scan.LeavesAt profile { scan with mode := .code, doc := scan.doc.close } rest i
            literal.delimiter.length) ∧
      ((∀ i, ¬ Text.UnescapedAt literal.delimiter literal.escape rest i) →
        scan.Keeps profile rest)) ∧
    ∀ (scanner : Scanner) (line rest : Text),
      let behind := scanner.feedLine profile line
      let begun := behind.beginLine (literal.delimiter ++ rest)
      behind.mode = .string quote →
        behind.feedLine profile (literal.delimiter ++ rest) =
          (LineScan.run profile
            { begun with mode := .code, doc := begun.doc.close } rest).endLine := by
  constructor
  · intro scan rest inside
    have encloses := LineScan.encloses_string listed nonempty distinct inside
    exact ⟨fun i unescaped first => encloses.leavesAt unescaped first, encloses.keeps⟩
  · intro scanner line rest behind begun inside
    have encloses := @LineScan.encloses_string profile begun quote literal listed nonempty distinct
      inside
    have stands : literal.delimiter <+: literal.delimiter ++ rest := List.prefix_append _ _
    have leaves := encloses.leavesAt (Text.unescapedAt_zero_iff.mpr stands)
      fun j earlier => absurd earlier (Nat.not_lt_zero j)
    have notCode : behind.mode ≠ .code := by simp [inside]
    rw [Scanner.feedLine_of_mode_ne_code notCode, leaves.run_eq, Nat.zero_add, List.drop_left]

/-- An escape before four quotes leaves three of them to close the literal.  On the next line
an escape stands at the end, and the three quotes that begin the line after it close the
literal. -/
theorem literal_closes_behind_escaped_quote :
    let literal := Delimiters.docstring "'''"
    let opened := Scanner.feedLines .documented {} ["'''".toList]
    let scan := opened.beginLine "a\\''''# b".toList
    let behind := opened.feedLine .documented "\\'''\\".toList
    let begun := behind.beginLine "'''x".toList
    Profile.documented.quotes[1]? = some literal ∧ literal.delimiter ≠ [] ∧
      (∀ escape, literal.escape = some escape → literal.delimiter.head? ≠ some escape) ∧
      scan.mode = .string 1 ∧
      Text.UnescapedAt literal.delimiter literal.escape "a\\''''# b".toList 3 ∧
      (∀ j < 3, ¬ Text.UnescapedAt literal.delimiter literal.escape "a\\''''# b".toList j) ∧
      scan.LeavesAt .documented { scan with mode := .code, doc := scan.doc.close }
        "a\\''''# b".toList 3 3 ∧
      (∀ i, ¬ Text.UnescapedAt literal.delimiter literal.escape "\\'''\\".toList i) ∧
      scan.Keeps .documented "\\'''\\".toList ∧
      behind.mode = .string 1 ∧
      behind.feedLine .documented "'''x".toList =
        (LineScan.run .documented { begun with mode := .code, doc := begun.doc.close }
          "x".toList).endLine := by
  intro literal opened scan behind begun
  have listed : Profile.documented.quotes[1]? = some literal := rfl
  have nonempty : literal.delimiter ≠ [] := by decide
  have distinct : ∀ escape, literal.escape = some escape →
      literal.delimiter.head? ≠ some escape := by
    rintro _ ⟨⟩
    decide
  have inside : scan.mode = .string 1 := by decide +kernel
  have unescaped : Text.UnescapedAt literal.delimiter literal.escape "a\\''''# b".toList 3 := by
    decide +kernel
  have first : ∀ j < 3,
      ¬ Text.UnescapedAt literal.delimiter literal.escape "a\\''''# b".toList j := by
    decide +kernel
  have none : ∀ i, ¬ Text.UnescapedAt literal.delimiter literal.escape "\\'''\\".toList i := by
    have within : ∀ i < 5,
        ¬ Text.UnescapedAt literal.delimiter literal.escape "\\'''\\".toList i := by
      decide +kernel
    exact fun i unescaped => within i (unescaped.lt_length nonempty) unescaped
  have goesOn : behind.mode = .string 1 := by decide +kernel
  obtain ⟨onLine, onNext⟩ :=
    literal_closes_at_first_unescaped_delimiter listed nonempty distinct
  exact ⟨listed, nonempty, distinct, inside, unescaped, first,
    (onLine scan _ inside).1 3 unescaped first, none, (onLine scan _ inside).2 none, goesOn,
    onNext opened "\\'''\\".toList "x".toList goesOn⟩

end LineTally
