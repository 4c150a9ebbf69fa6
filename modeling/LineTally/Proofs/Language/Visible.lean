import Mathlib.Data.List.Basic
import LineTally.Language.Table
import LineTally.Proofs.Language.Opener
import LineTally.Text.Basic

/-!
# Visible delimiters

Most languages use delimiters that can be seen: none is empty, and none has a blank
character in it.  Then no delimiter reaches into the blank characters at the end of a text,
so what opens at a position does not depend on them (`longestOpener_append_blank`).

In every language the delimiters begin with a character that can be seen.  That is enough
for nothing to open at a blank character (`longestOpener_blank`).
-/

namespace LineTally

namespace Text

/-- Not empty, and without blank characters. -/
def IsVisible (text : Text) : Prop :=
  text ≠ [] ∧ ∀ c ∈ text, isBlank c = false

theorem isVisible_iff {text : Text} :
    text.IsVisible ↔ text ≠ [] ∧ text.all (!isBlank ·) = true := by
  simp [IsVisible]

instance (text : Text) : Decidable text.IsVisible :=
  decidable_of_iff' _ isVisible_iff

@[simp]
theorem allBlank_append (first second : Text) :
    allBlank (first ++ second) = (first.allBlank && second.allBlank) :=
  List.all_append

theorem allBlank_takeWhile (text : Text) : allBlank (text.takeWhile isBlank) = true :=
  List.all_takeWhile

/-- A trimmed text stands between blank characters. -/
theorem exists_append_trim (text : Text) :
    ∃ leading trailing, text = leading ++ (text.trim ++ trailing) ∧
      leading.allBlank = true ∧ trailing.allBlank = true := by
  refine ⟨text.takeWhile isBlank,
    ((text.dropWhile isBlank).reverse.takeWhile isBlank).reverse, ?_,
    allBlank_takeWhile text, ?_⟩
  · rw [trim, dropEndWhile, ← List.reverse_append, List.takeWhile_append_dropWhile,
      List.reverse_reverse, List.takeWhile_append_dropWhile]
  · rw [allBlank, List.all_reverse]
    exact allBlank_takeWhile _

@[simp]
theorem allBlank_trim (text : Text) : text.trim.allBlank = text.allBlank := by
  obtain ⟨leading, trailing, whole, leadingBlank, trailingBlank⟩ := text.exists_append_trim
  calc
    text.trim.allBlank = allBlank (leading ++ (text.trim ++ trailing)) := by
      simp [leadingBlank, trailingBlank]
    _ = text.allBlank := by rw [← whole]

/-- A delimiter without blank characters does not reach into those at the end. -/
theorem isPrefixOf_append_blank {delimiter text blanks : Text}
    (seen : ∀ c ∈ delimiter, isBlank c = false) (blank : blanks.allBlank = true) :
    delimiter.isPrefixOf (text ++ blanks) = delimiter.isPrefixOf text := by
  induction delimiter generalizing text with
  | nil => rfl
  | cons d ds inductionHypothesis =>
      obtain ⟨dSeen, dsSeen⟩ := List.forall_mem_cons.mp seen
      cases text with
      | cons c cs => rw [List.cons_append, List.isPrefixOf, List.isPrefixOf,
          inductionHypothesis dsSeen]
      | nil =>
          cases blanks with
          | nil => rfl
          | cons b bs =>
              have bBlank : isBlank b = true := List.all_eq_true.mp blank b List.mem_cons_self
              have different : d ≠ b := by
                rintro rfl
                rw [dSeen] at bBlank
                contradiction
              simp [List.isPrefixOf, different]

/-- Not empty, and with a visible character at its start. -/
def BeginsVisibly (text : Text) : Prop :=
  ∃ c cs, text = c :: cs ∧ isBlank c = false

theorem beginsVisibly_iff {text : Text} :
    text.BeginsVisibly ↔ text.head?.any (!isBlank ·) = true := by
  cases text <;> simp [BeginsVisibly]

instance (text : Text) : Decidable text.BeginsVisibly :=
  decidable_of_iff' _ beginsVisibly_iff

theorem IsVisible.beginsVisibly {text : Text} (visible : text.IsVisible) :
    text.BeginsVisibly := by
  obtain ⟨ne, seen⟩ := visible
  obtain ⟨c, cs, rfl⟩ := List.exists_cons_of_ne_nil ne
  exact ⟨c, cs, rfl, seen c List.mem_cons_self⟩

/-- A delimiter that begins visibly does not start at a blank character. -/
theorem BeginsVisibly.seen_of_stands {delimiter cs : Text} {c : Char}
    (visibly : delimiter.BeginsVisibly) (stands : delimiter <+: c :: cs) : isBlank c = false := by
  obtain ⟨d, ds, rfl, seen⟩ := visibly
  obtain ⟨rfl, _⟩ := List.cons_prefix_cons.mp stands
  exact seen

theorem BeginsVisibly.not_isPrefixOf_blank {delimiter : Text}
    (visibly : delimiter.BeginsVisibly) {c : Char} (blank : isBlank c = true) (cs : Text) :
    delimiter.isPrefixOf (c :: cs) = false := by
  rw [← Bool.not_eq_true, List.isPrefixOf_iff_prefix]
  intro stands
  rw [visibly.seen_of_stands stands] at blank
  contradiction

/-- A text with a visible character at its end does not reach into the blank characters at
the end of another. -/
theorem prefix_append_blank_iff {first text blanks : Text} {last : Char}
    (ends : first.getLast? = some last) (seen : isBlank last = false)
    (blank : blanks.allBlank = true) : first <+: text ++ blanks ↔ first <+: text := by
  constructor
  · intro stands
    rcases List.prefix_or_prefix_of_prefix stands (List.prefix_append text blanks) with
      inside | ⟨beyond, rfl⟩
    · exact inside
    · have within : beyond <+: blanks := (List.prefix_append_right_inj text).mp stands
      rw [List.getLast?_append] at ends
      cases final : beyond.getLast? with
      | none =>
          have whole : text ++ beyond = text := by
            rw [List.getLast?_eq_none_iff.mp final, List.append_nil]
          exact whole.symm ▸ List.prefix_rfl
      | some c =>
          rw [final, Option.some_or, Option.some.injEq] at ends
          subst ends
          have member : c ∈ blanks := within.subset (List.mem_of_getLast? final)
          rw [List.all_eq_true.mp blank c member] at seen
          contradiction
  · exact fun stands => stands.trans (List.prefix_append text blanks)

/-- What is dropped off a text is dropped off a longer one too. -/
theorem dropBytes?_append_of_eq_some {width : Nat} {text rest : Text} (more : Text)
    (dropped : dropBytes? width text = some rest) :
    dropBytes? width (text ++ more) = some (rest ++ more) := by
  induction text generalizing width with
  | nil =>
      cases width with
      | zero =>
          rw [dropBytes?_zero, Option.some.injEq] at dropped
          rw [dropBytes?_zero, dropped]
      | succ width => contradiction
  | cons c cs inductionHypothesis =>
      cases width with
      | zero =>
          rw [dropBytes?_zero, Option.some.injEq] at dropped
          rw [dropBytes?_zero, dropped]
      | succ width =>
          rw [dropBytes?] at dropped
          rw [List.cons_append, dropBytes?]
          split at dropped
          · next fits =>
              rw [if_pos fits]
              exact inductionHypothesis dropped
          · contradiction

end Text

/-- All delimiters can be seen, and none counts in the first column only. -/
structure Profile.Visible (profile : Profile) : Prop where
  columnOneComments : profile.columnOneComments = []
  lineComments : ∀ marker ∈ profile.lineComments, marker.IsVisible
  blockComments : ∀ pair ∈ profile.blockComments, pair.opener.IsVisible ∧ pair.closer.IsVisible
  quotes : ∀ literal ∈ profile.quotes, literal.delimiter.IsVisible ∧
    ∀ c ∈ literal.escape, isBlank c = false
  charLiteral : ∀ c ∈ profile.charLiteral, isBlank c = false

theorem Profile.visible_iff (profile : Profile) :
    profile.Visible ↔ profile.columnOneComments = [] ∧
      (∀ marker ∈ profile.lineComments, marker.IsVisible) ∧
      (∀ pair ∈ profile.blockComments, pair.opener.IsVisible ∧ pair.closer.IsVisible) ∧
      (∀ literal ∈ profile.quotes, literal.delimiter.IsVisible ∧
        literal.escape.all (!isBlank ·) = true) ∧
      profile.charLiteral.all (!isBlank ·) = true := by
  simp only [Option.all_eq_true, Bool.not_eq_true']
  exact ⟨fun ⟨columnOne, lines, blocks, quotes, chars⟩ => ⟨columnOne, lines, blocks, quotes, chars⟩,
    fun ⟨columnOne, lines, blocks, quotes, chars⟩ => ⟨columnOne, lines, blocks, quotes, chars⟩⟩

instance (profile : Profile) : Decidable profile.Visible :=
  decidable_of_iff' _ profile.visible_iff

/-- The delimiters of every known language but two can be seen. -/
theorem Profile.visible_iff_of_mem_all :
    ∀ profile ∈ Profile.all, profile.Visible ↔
      profile.name ≠ "Fortran 77" ∧ profile.name ≠ "reStructuredText" := by
  decide +kernel

/-- All that can open or mark a comment or a literal begins with a visible character. -/
structure Profile.BeginsVisibly (profile : Profile) : Prop where
  columnOneComments : ∀ marker ∈ profile.columnOneComments, marker.BeginsVisibly
  lineComments : ∀ marker ∈ profile.lineComments, marker.BeginsVisibly
  blockComments : ∀ pair ∈ profile.blockComments, pair.opener.BeginsVisibly
  quotes : ∀ literal ∈ profile.quotes, literal.delimiter.BeginsVisibly
  charLiteral : ∀ c ∈ profile.charLiteral, isBlank c = false

theorem Profile.beginsVisibly_iff (profile : Profile) :
    profile.BeginsVisibly ↔
      (∀ marker ∈ profile.columnOneComments, marker.BeginsVisibly) ∧
      (∀ marker ∈ profile.lineComments, marker.BeginsVisibly) ∧
      (∀ pair ∈ profile.blockComments, pair.opener.BeginsVisibly) ∧
      (∀ literal ∈ profile.quotes, literal.delimiter.BeginsVisibly) ∧
      profile.charLiteral.all (!isBlank ·) = true := by
  simp only [Option.all_eq_true, Bool.not_eq_true']
  exact ⟨fun ⟨columnOne, lines, blocks, quotes, chars⟩ => ⟨columnOne, lines, blocks, quotes, chars⟩,
    fun ⟨columnOne, lines, blocks, quotes, chars⟩ => ⟨columnOne, lines, blocks, quotes, chars⟩⟩

instance (profile : Profile) : Decidable profile.BeginsVisibly :=
  decidable_of_iff' _ profile.beginsVisibly_iff

/-- The delimiters of every known language begin with a visible character. -/
theorem Profile.beginsVisibly_of_mem_all :
    ∀ profile ∈ Profile.all, profile.BeginsVisibly := by
  decide +kernel

theorem Profile.Visible.beginsVisibly {profile : Profile} (visible : profile.Visible) :
    profile.BeginsVisibly := by
  constructor
  case columnOneComments => simp [visible.columnOneComments]
  case lineComments => exact fun marker listed => (visible.lineComments marker listed).beginsVisibly
  case blockComments => exact fun pair listed => (visible.blockComments pair listed).1.beginsVisibly
  case quotes => exact fun literal listed => (visible.quotes literal listed).1.beginsVisibly
  case charLiteral => exact visible.charLiteral

/-- Blank characters behind a text do not make it, nor undo, a single-character literal. -/
theorem CharLiteral.match?_append_blank {quote : Char} (seen : isBlank quote = false)
    {blanks : Text} (blank : blanks.allBlank = true) (text : Text) :
    match? quote (text ++ blanks) = match? quote text := by
  apply Option.ext
  intro literal
  rw [match?_eq_some_iff, match?_eq_some_iff]
  apply and_congr_right
  intro written
  exact Text.prefix_append_blank_iff written.getLast? seen blank

namespace Profile

variable {profile : Profile}

theorem Visible.seen_of_mem_openers (visible : profile.Visible) {delimiter : Text}
    {opener : Opener} (listed : (delimiter, opener) ∈ profile.openers) :
    delimiter.IsVisible := by
  rcases mem_openers_iff.mp listed with
    ⟨i, pair, found, rfl, _⟩ | ⟨i, literal, found, rfl, _⟩ | ⟨i, found, _⟩
  · exact (visible.blockComments pair (List.mem_of_getElem? found)).1
  · exact (visible.quotes literal (List.mem_of_getElem? found)).1
  · exact visible.lineComments delimiter (List.mem_of_getElem? found)

/-- What opens does not depend on the blank characters at the end of the text. -/
theorem Visible.longestOpener_append_blank (visible : profile.Visible) {blanks : Text}
    (blank : blanks.allBlank = true) (text : Text) :
    profile.longestOpener (text ++ blanks) = profile.longestOpener text := by
  have delimiters : ∀ entry ∈ profile.openers,
      entry.1.isPrefixOf (text ++ blanks) = entry.1.isPrefixOf text := by
    intro entry listed
    exact Text.isPrefixOf_append_blank (visible.seen_of_mem_openers listed).2 blank
  have charLiteral : profile.charLiteral.bind (CharLiteral.width? · (text ++ blanks)) =
      profile.charLiteral.bind (CharLiteral.width? · text) := by
    cases quoted : profile.charLiteral with
    | none => rfl
    | some quote =>
        simp only [Option.bind_some, CharLiteral.width?]
        rw [CharLiteral.match?_append_blank (visible.charLiteral quote quoted) blank]
  rw [longestOpener, longestOpener, candidates, candidates, charLiteral]
  congr 2
  apply List.filterMap_congr
  rintro ⟨delimiter, opener⟩ listed
  simp only []
  rw [delimiters _ listed]

theorem BeginsVisibly.seen_of_opens (visibly : profile.BeginsVisibly) {c : Char}
    {cs opened : Text} {opener : Opener} (opens : profile.Opens (c :: cs) opener opened) :
    isBlank c = false := by
  cases opens with
  | block listed _ stands =>
      exact (visibly.blockComments _ (List.mem_of_getElem? listed)).seen_of_stands stands
  | quote listed _ stands =>
      exact (visibly.quotes _ (List.mem_of_getElem? listed)).seen_of_stands stands
  | line listed _ stands =>
      exact (visibly.lineComments _ (List.mem_of_getElem? listed)).seen_of_stands stands
  | @charLiteral quote literal quoted found =>
      obtain ⟨written, stands⟩ := CharLiteral.match?_eq_some_iff.mp found
      obtain ⟨behind, rfl⟩ := written.exists_eq_cons
      obtain ⟨rfl, _⟩ := List.cons_prefix_cons.mp stands
      exact visibly.charLiteral quote quoted

/-- Nothing opens at a blank character. -/
theorem BeginsVisibly.longestOpener_blank (visibly : profile.BeginsVisibly) {c : Char}
    (blank : isBlank c = true) (cs : Text) : profile.longestOpener (c :: cs) = none := by
  cases found : profile.longestOpener (c :: cs) with
  | none => rfl
  | some best =>
      obtain ⟨width, opener⟩ := best
      obtain ⟨opened, opens, _⟩ := mem_candidates_iff.mp (mem_of_widest found)
      rw [visibly.seen_of_opens opens] at blank
      contradiction

/-- A line of blank characters is no comment because of its first column. -/
theorem BeginsVisibly.startsWithColumnOneComment_blank (visibly : profile.BeginsVisibly)
    {line : Text} (blank : line.allBlank = true) :
    profile.startsWithColumnOneComment line = false := by
  rw [startsWithColumnOneComment, List.any_eq_false]
  intro marker listed
  have begins := visibly.columnOneComments marker listed
  cases line with
  | nil =>
      obtain ⟨d, ds, rfl, _⟩ := begins
      simp
  | cons c cs =>
      simp only [Text.allBlank, List.all_cons, Bool.and_eq_true] at blank
      simp [begins.not_isPrefixOf_blank blank.1]

end Profile

end LineTally
