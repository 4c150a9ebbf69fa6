import LineTally.Proofs.Language.Visible
import LineTally.Proofs.Line.Splitting

/-!
# Indentation and trailing blanks

Where all delimiters can be seen, the blank characters at both ends of a line are
never part of one.  At the start of a line the scanner passes over them one by one.
At the end they are passed over too, but the last lexeme before them may take some
of them with it: an escape takes the next character, and a line comment takes all.
So a line and the same line trimmed are not read in the same lexemes, but whatever
differs is lost on the scanner (`run_trim`).
-/

namespace LineTally

namespace Profile

variable {profile : Profile} {c : Char} {cs blanks : Text}

/-- A blank character is a lexeme of its own. -/
theorem Visible.lex_blank (visible : profile.Visible) (blank : isBlank c = true) (mode : Mode)
    (cs : Text) :
    profile.lex mode c cs =
      match mode with
      | .code => (.plain c, cs)
      | .block .. => (.blockText, cs)
      | .string _ => (.literalText, cs) := by
  cases mode with
  | code => simp only [lex, lexCode, visible.beginsVisibly.longestOpener_blank blank cs]
  | block pair depth =>
      simp only [lex]
      split
      · next delimiters listed =>
          obtain ⟨opener, closer⟩ := visible.blockComments _ (List.mem_of_getElem? listed)
          simp [lexBlock, opener.beginsVisibly.not_isPrefixOf_blank blank,
            closer.beginsVisibly.not_isPrefixOf_blank blank]
      · rfl
  | string quote =>
      simp only [lex]
      split
      · next literal listed =>
          obtain ⟨delimiter, escape⟩ := visible.quotes _ (List.mem_of_getElem? listed)
          have noEscape : literal.escape ≠ some c := by
            intro isEscape
            rw [escape c isEscape] at blank
            contradiction
          simp [lexString, noEscape, delimiter.beginsVisibly.not_isPrefixOf_blank blank]
      · rfl

/-- Behind a longer text the same lexeme is met, and it leaves the same text with some of
the blank characters behind it. -/
def SameLexeme (longer shorter : Lexeme × Text) : Prop :=
  longer.1 = shorter.1 ∧ ∃ blanks, blanks.allBlank = true ∧ longer.2 = shorter.2 ++ blanks

theorem Visible.lexCode_append_blank (visible : profile.Visible)
    (blank : blanks.allBlank = true) (c : Char) (cs : Text) :
    SameLexeme (profile.lexCode c (cs ++ blanks)) (profile.lexCode c cs) := by
  have same := visible.longestOpener_append_blank blank (c :: cs)
  rw [List.cons_append] at same
  have moved {width : Nat} {opener : Opener}
      (found : profile.longestOpener (c :: cs) = some (width, opener)) :
      (Text.dropBytes? width (c :: (cs ++ blanks))).getD [] =
        (Text.dropBytes? width (c :: cs)).getD [] ++ blanks := by
    obtain ⟨opened, rest, _, _, dropped⟩ := dropBytes?_of_longestOpener found
    have longer := Text.dropBytes?_append_of_eq_some blanks dropped
    rw [List.cons_append] at longer
    rw [dropped, longer, Option.getD_some, Option.getD_some]
  unfold lexCode
  rw [same]
  cases found : profile.longestOpener (c :: cs) with
  | none => exact ⟨rfl, blanks, blank, rfl⟩
  | some best =>
      obtain ⟨width, opener⟩ := best
      cases opener with
      | line => exact ⟨rfl, [], rfl, rfl⟩
      | block => exact ⟨rfl, blanks, blank, moved found⟩
      | quote => exact ⟨rfl, blanks, blank, moved found⟩
      | charLiteral => exact ⟨rfl, blanks, blank, moved found⟩

theorem drop_append_of_isPrefixOf {delimiter text : Text}
    (stands : delimiter.isPrefixOf text = true) (more : Text) :
    (text ++ more).drop delimiter.length = text.drop delimiter.length ++ more :=
  List.drop_append_of_le_length (List.isPrefixOf_iff_prefix.mp stands).length_le

theorem lexBlock_append_blank {delimiters : BlockComment} (opener : delimiters.opener.IsVisible)
    (closer : delimiters.closer.IsVisible) (blank : blanks.allBlank = true) (c : Char)
    (cs : Text) :
    SameLexeme (lexBlock delimiters c (cs ++ blanks)) (lexBlock delimiters c cs) := by
  unfold lexBlock
  rw [← List.cons_append, Text.isPrefixOf_append_blank closer.2 blank,
    Text.isPrefixOf_append_blank opener.2 blank]
  split
  · next closes => exact ⟨rfl, blanks, blank, drop_append_of_isPrefixOf closes blanks⟩
  · split
    · next nests =>
        rw [Bool.and_eq_true] at nests
        exact ⟨rfl, blanks, blank, drop_append_of_isPrefixOf nests.2 blanks⟩
    · exact ⟨rfl, blanks, blank, rfl⟩

theorem lexString_append_blank {literal : Quote} (delimiter : literal.delimiter.IsVisible)
    (blank : blanks.allBlank = true) (c : Char) (cs : Text) :
    SameLexeme (lexString literal c (cs ++ blanks)) (lexString literal c cs) := by
  unfold lexString
  rw [← List.cons_append, Text.isPrefixOf_append_blank delimiter.2 blank]
  split
  · -- An escape at the end of the line takes the first of the blank characters with it.
    cases cs with
    | cons d ds => exact ⟨rfl, blanks, blank, rfl⟩
    | nil =>
        refine ⟨rfl, blanks.drop 1, ?_, rfl⟩
        rw [Text.allBlank, List.all_eq_true] at blank ⊢
        exact fun b member => blank b (List.mem_of_mem_drop member)
  · split
    · next closes => exact ⟨rfl, blanks, blank, drop_append_of_isPrefixOf closes blanks⟩
    · exact ⟨rfl, blanks, blank, rfl⟩

theorem Visible.lex_append_blank (visible : profile.Visible) (blank : blanks.allBlank = true)
    (mode : Mode) (c : Char) (cs : Text) :
    SameLexeme (profile.lex mode c (cs ++ blanks)) (profile.lex mode c cs) := by
  cases mode with
  | code => exact visible.lexCode_append_blank blank c cs
  | block pair depth =>
      simp only [lex]
      split
      · next delimiters listed =>
          obtain ⟨opener, closer⟩ := visible.blockComments _ (List.mem_of_getElem? listed)
          exact lexBlock_append_blank opener closer blank c cs
      · exact ⟨rfl, blanks, blank, rfl⟩
  | string quote =>
      simp only [lex]
      split
      · next literal listed =>
          obtain ⟨delimiter, _⟩ := visible.quotes _ (List.mem_of_getElem? listed)
          exact lexString_append_blank delimiter blank c cs
      · exact ⟨rfl, blanks, blank, rfl⟩

end Profile

namespace LineScan

variable {profile : Profile} {scan : LineScan}

/-- A blank character at the start of what is left changes nothing. -/
theorem run_cons_blank (visible : profile.Visible) (valid : scan.mode.Valid profile) {c : Char}
    (blank : isBlank c = true) (cs : Text) : scan.run profile (c :: cs) = scan.run profile cs := by
  rw [run_cons_observe valid, visible.lex_blank blank]
  cases scan.mode with
  | code => simp only [observe, blank, if_true]
  | block => rfl
  | string => rfl

theorem run_blank_append (visible : profile.Visible) (valid : scan.mode.Valid profile)
    {leading : Text} (blank : leading.allBlank = true) (text : Text) :
    scan.run profile (leading ++ text) = scan.run profile text := by
  induction leading with
  | nil => rfl
  | cons c cs inductionHypothesis =>
      simp only [Text.allBlank, List.all_cons, Bool.and_eq_true] at blank
      rw [List.cons_append, run_cons_blank visible valid blank.1, inductionHypothesis blank.2]

theorem run_append_blank (visible : profile.Visible) (valid : scan.mode.Valid profile)
    (text : Text) {trailing : Text} (blank : trailing.allBlank = true) :
    scan.run profile (text ++ trailing) = scan.run profile text := by
  generalize same : scan.mode = mode at valid
  fun_induction Profile.lexemes profile mode text generalizing scan trailing with
  | case1 =>
      subst same
      have passed := run_blank_append visible valid blank []
      rwa [List.append_nil] at passed
  | case2 mode c cs inductionHypothesis =>
      subst same
      have fits := profile.lex_fits scan.mode c cs
      obtain ⟨sameLexeme, blanks, blank', rest⟩ := visible.lex_append_blank blank scan.mode c cs
      rw [List.cons_append, run_cons_observe valid, run_cons_observe valid, sameLexeme, rest]
      exact inductionHypothesis blank' (mode_observe fits) (valid.after fits)

/-- A line that is trimmed leaves the scanner where the line does. -/
theorem run_trim (visible : profile.Visible) (valid : scan.mode.Valid profile) (line : Text) :
    scan.run profile line.trim = scan.run profile line := by
  obtain ⟨leading, trailing, whole, leadingBlank, trailingBlank⟩ := line.exists_append_trim
  calc
    scan.run profile line.trim = scan.run profile (line.trim ++ trailing) :=
      (run_append_blank visible valid line.trim trailingBlank).symm
    _ = scan.run profile (leading ++ (line.trim ++ trailing)) :=
      (run_blank_append visible valid leadingBlank _).symm
    _ = scan.run profile line := by rw [← whole]

end LineScan

namespace Scanner

variable {profile : Profile} {scanner : Scanner}

theorem beginLine_trim (scanner : Scanner) (line : Text) :
    scanner.beginLine line.trim = scanner.beginLine line := by
  simp only [beginLine, firstMarks, Text.allBlank_trim]

theorem feedLine_trim (visible : profile.Visible) (sound : scanner.Sound profile) (line : Text) :
    scanner.feedLine profile line.trim = scanner.feedLine profile line := by
  have notColumnOne (text : Text) : ¬ (scanner.mode = .code ∧
      profile.startsWithColumnOneComment text = true) := by
    simp [Profile.startsWithColumnOneComment, visible.columnOneComments]
  rw [feedLine, feedLine, if_neg (notColumnOne _), if_neg (notColumnOne _), beginLine_trim,
    LineScan.run_trim visible (sound.beginLine line).valid]

theorem feedLines_map_trim (visible : profile.Visible) (sound : scanner.Sound profile)
    (lines : List Text) :
    scanner.feedLines profile (lines.map Text.trim) = scanner.feedLines profile lines := by
  unfold feedLines
  induction lines generalizing scanner with
  | nil => rfl
  | cons line rest inductionHypothesis =>
      rw [List.map_cons, List.foldl_cons, List.foldl_cons, feedLine_trim visible sound]
      exact inductionHypothesis (sound.feedLine line)

end Scanner

/-- Where all delimiters can be seen, as in every known language but two, blank characters
at both ends of lines do not change the classification of a file. -/
theorem classify_map_trim :
    (∀ profile ∈ Profile.all, profile.Visible ↔
      profile.name ≠ "Fortran 77" ∧ profile.name ≠ "reStructuredText") ∧
    ∀ profile : Profile, profile.Visible → ∀ lines,
      classify profile (lines.map Text.trim) = classify profile lines := by
  refine ⟨Profile.visible_iff_of_mem_all, fun profile visible lines => ?_⟩
  rw [classify, classify,
    Scanner.feedLines_map_trim visible (Scanner.sound_empty profile) lines]

/-- An escape stands before the blank characters at the end of the first line, the closer
behind those at the start of the second one, and more behind it. -/
theorem classify_trim_docstring :
    Profile.documented.Visible ∧
      classify .documented (["\t'''a\\  ".toList, "  b'''  ".toList, "  ".toList].map Text.trim) =
        classify .documented ["\t'''a\\  ".toList, "  b'''  ".toList, "  ".toList] :=
  have visible : Profile.documented.Visible := by decide +kernel
  ⟨visible, classify_map_trim.2 _ visible _⟩

end LineTally
