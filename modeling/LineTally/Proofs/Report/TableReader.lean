import LineTally.Proofs.Report.ColumnSums
import LineTally.Proofs.Text.Words
import LineTally.Report.Table
import Mathlib.Data.List.Basic

/-!
# Reading the table

The reader of the table knows nothing of its columns: it cuts each line into words and keeps
those that end in four numbers.  What is left of a line is the name.  The rows of the languages
are read back in full whatever the widths of their names and numbers are, and no other line of
the report but the one of the sums is taken for a row (`rows_of_the_table_are_read_back`).
-/

namespace LineTally

/-- The lines of a text that was written line by line. -/
theorem splitOnP_flatMap_lineFeed {lines : List Text} (each : ∀ line ∈ lines, '\n' ∉ line) :
    (lines.flatMap (· ++ ['\n'])).splitOnP (· = '\n') = lines ++ [[]] := by
  induction lines with
  | nil => rfl
  | cons line rest inductionHypothesis =>
      have whole : ∀ c ∈ line, decide (c = '\n') = false := by
        rintro c member
        rw [decide_eq_false_iff_not]
        rintro rfl
        exact each line List.mem_cons_self member
      rw [List.flatMap_cons, List.append_assoc, List.singleton_append,
        List.splitOnP_append_cons _ _ (by decide), List.splitOnP_eq_singleton whole,
        inductionHypothesis fun line member => each line (List.mem_cons_of_mem _ member)]
      rfl

theorem Decimal.lineFeed_not_mem_fixed (places : Nat) (x : Float) : '\n' ∉ fixed places x := by
  have noDigit : '\n'.isDigit = false := by
    decide
  simp only [fixed, write]
  split <;> simp [Text.not_mem_ofNat noDigit]

namespace Report.Table

open Csv (LanguageRow)

/-- The row that the words of a line stand for: the last four are numbers, and there are words
before them. -/
def rowOfWords? (words : List Text) : Option LanguageRow :=
  match words.reverse with
  | code :: comment :: blank :: files :: last :: name => do
      return {
        language := [' '].intercalate (last :: name).reverse
        files := ← files.toNat?
        blank := ← blank.toNat?
        comment := ← comment.toNat?
        code := ← code.toNat? }
  | _ => none

/-- The row that a line stands for. -/
def rowOfLine? (line : Text) : Option LanguageRow :=
  rowOfWords? (Text.words line)

/-- The rows among the lines of a text. -/
def read (text : Text) : List LanguageRow :=
  (text.splitOnP (· = '\n')).filterMap rowOfLine?

theorem read_flatMap_lineFeed {lines : List Text} (each : ∀ line ∈ lines, '\n' ∉ line) :
    read (lines.flatMap (· ++ ['\n'])) = lines.filterMap rowOfLine? := by
  rw [read, splitOnP_flatMap_lineFeed each, List.filterMap_append]
  exact List.append_nil _

/-! ## Lines that are no rows -/

/-- A line that does not end in a number is no row. -/
theorem rowOfWords?_concat {last : Text} (noNumber : last.toNat? = none) (words : List Text) :
    rowOfWords? (words ++ [last]) = none := by
  rw [rowOfWords?, List.reverse_concat]
  split
  · next same =>
      obtain ⟨rfl, -⟩ := List.cons.inj same
      simp [noNumber]
  · rfl

/-- It is enough to know the last word behind some blank. -/
theorem rowOfLine?_append_cons {rest : Text}
    (noNumber : (Text.words rest).getLast?.map Text.toNat? = some none) (line : Text) :
    rowOfLine? (line ++ ' ' :: rest) = none := by
  obtain ⟨last, isLast, notRead⟩ := Option.map_eq_some_iff.mp noNumber
  obtain ⟨before, cut⟩ := List.getLast?_eq_some_iff.mp isLast
  rw [rowOfLine?, Text.words_append_cons (by decide), cut, ← List.append_assoc,
    rowOfWords?_concat notRead]

theorem rowOfLine?_title (color : Bool) (timing : Timing) :
    rowOfLine? (title color timing) = none :=
  @rowOfLine?_append_cons "lines/s)".toList (by decide) _

theorem rowOfLine?_summary (tally : Tally) : rowOfLine? (summary tally) = none :=
  @rowOfLine?_append_cons "files ignored.".toList (by decide) _

theorem rowOfLine?_of_mem_warning {color : Bool} {tally : Tally} {line : Text}
    (member : line ∈ warning color tally) : rowOfLine? line = none := by
  rw [warning] at member
  split at member
  · exact absurd member List.not_mem_nil
  · have ending : " files end inside an unterminated comment or string.".toList =
        ' ' :: "files end inside an unterminated comment or string.".toList := by
      decide
    rw [List.mem_singleton.mp member, ending]
    exact rowOfLine?_append_cons (by decide) _

theorem rowOfLine?_rule : rowOfLine? rule = none := by
  have isWord : Text.IsWord rule := by
    decide
  have noNumber : Text.toNat? rule = none := by
    decide
  rw [rowOfLine?, isWord.words_eq]
  exact rowOfWords?_concat noNumber []

/-! ## Rows -/

theorem words_padRight (width : Nat) (text : Text) :
    Text.words (padRight width text) = Text.words text :=
  Text.words_append_replicate text _

theorem words_padLeft (width : Nat) (text : Text) :
    Text.words (padLeft width text) = Text.words text :=
  Text.words_replicate_append _ text

/-- Padding does not change the words of a column, and what is wider than its column is still set
off from the next one. -/
theorem words_columns (name files blank comment code : Text) :
    Text.words (columns name files blank comment code) =
      Text.words name ++ Text.words files ++ Text.words blank ++ Text.words comment ++
        Text.words code := by
  have aside : isBlank ' ' = true := by
    decide
  simp only [columns, Text.words_append_cons aside, words_padRight, words_padLeft]

theorem rowOfLine?_header :
    rowOfLine? (columns "Language".toList "files".toList "blank".toList "comment".toList
      "code".toList) = none := by
  rw [rowOfLine?, words_columns]
  decide

/-- Words that are joined by single spaces. -/
def IsName (name : Text) : Prop :=
  ∃ words : List Text, words ≠ [] ∧ (∀ word ∈ words, word.IsWord) ∧ name = [' '].intercalate words

/-- A single word is a name. -/
theorem isName_of_isWord {word : Text} (isWord : word.IsWord) : IsName word :=
  ⟨[word], List.cons_ne_nil _ _, List.forall_mem_singleton.mpr isWord, by simp⟩

theorem isName_sum : IsName "SUM".toList :=
  isName_of_isWord (by decide)

/-- A name that is made of words is read back, together with the numbers behind it. -/
theorem rowOfLine?_row {entry : String × Totals} (isName : IsName entry.1.toList) :
    rowOfLine? (row entry.1.toList entry.2) = some (LanguageRow.ofEntry entry) := by
  obtain ⟨words, named, each, joined⟩ := isName
  obtain ⟨first, last, rfl⟩ := List.eq_nil_or_concat words |>.resolve_left named
  rw [rowOfLine?, row, words_columns, LanguageRow.ofEntry, joined, Text.words_intercalate each]
  simp only [(Text.isWord_ofNat _).words_eq]
  simp [rowOfWords?]

/-! ## Lines of their own -/

theorem lineFeed_not_mem_ofNat (n : Nat) : '\n' ∉ Text.ofNat n :=
  Text.not_mem_ofNat (by decide) n

theorem lineFeed_not_mem_title (timing : Timing) : '\n' ∉ title false timing := by
  have inName : '\n' ∉ programName := by
    decide
  have inVersion : '\n' ∉ programVersion := by
    decide
  simp [title, Style.paint, inName, inVersion, Decimal.lineFeed_not_mem_fixed]

theorem lineFeed_not_mem_summary (tally : Tally) : '\n' ∉ summary tally := by
  simp [summary, lineFeed_not_mem_ofNat]

theorem lineFeed_not_mem_warning {tally : Tally} {line : Text}
    (member : line ∈ warning false tally) : '\n' ∉ line := by
  rw [warning] at member
  split at member
  · exact absurd member List.not_mem_nil
  · rw [List.mem_singleton.mp member]
    simp [Style.paint, lineFeed_not_mem_ofNat]

theorem lineFeed_not_mem_row {name : Text} (isName : IsName name) (totals : Totals) :
    '\n' ∉ row name totals := by
  obtain ⟨words, -, each, rfl⟩ := isName
  simp [row, columns, padLeft, padRight, lineFeed_not_mem_ofNat,
    Text.lineFeed_not_mem_intercalate each]

variable {tally : Tally}

/-- No line of the report is broken. -/
theorem lineFeed_not_mem_lines (listed : tally.isEmpty = false)
    (named : ∀ entry ∈ tally.languages, IsName entry.1.toList) (timing : Timing) :
    ∀ line ∈ lines false tally timing, '\n' ∉ line := by
  have inHeader : '\n' ∉ columns "Language".toList "files".toList "blank".toList
      "comment".toList "code".toList := by
    decide
  have inRule : '\n' ∉ rule := by
    decide
  have inRows : ∀ entry ∈ tally.languages, '\n' ∉ row entry.1.toList entry.2 :=
    fun entry member => lineFeed_not_mem_row (named entry member) entry.2
  have inSums : '\n' ∉ row "SUM".toList tally.total := lineFeed_not_mem_row isName_sum _
  simp only [lines, listed, Style.paint, Bool.false_eq_true, if_false, List.forall_mem_cons,
    List.forall_mem_append, List.forall_mem_map]
  exact ⟨lineFeed_not_mem_title timing,
    ⟨⟨⟨lineFeed_not_mem_summary tally, fun _ => lineFeed_not_mem_warning⟩,
      inRule, inHeader, inRule, List.forall_mem_nil _⟩, inRows⟩,
    inRule, inSums, inRule, List.forall_mem_nil _⟩

/-! ## The report -/

/-- The report reads as one row for each language and one for all of them together. -/
theorem read_render (timing : Timing) (listed : tally.isEmpty = false)
    (named : ∀ entry ∈ tally.languages, IsName entry.1.toList) :
    read (render false tally timing) =
      tally.languages.map LanguageRow.ofEntry ++ [LanguageRow.ofEntry ("SUM", tally.total)] := by
  have eachRow : (tally.languages.map fun entry => row entry.1.toList entry.2).filterMap
      rowOfLine? = tally.languages.map LanguageRow.ofEntry := by
    have each : ∀ entry ∈ tally.languages,
        rowOfLine? (row entry.1.toList entry.2) = some (LanguageRow.ofEntry entry) :=
      fun entry member => rowOfLine?_row (named entry member)
    rw [List.filterMap_map, Function.comp_def, List.filterMap_congr each, List.filterMap_eq_map']
  have noWarning : (warning false tally).filterMap rowOfLine? = [] :=
    List.filterMap_eq_nil_iff.mpr fun _ => rowOfLine?_of_mem_warning
  have sums : rowOfLine? (row "SUM".toList tally.total) =
      some (LanguageRow.ofEntry ("SUM", tally.total)) :=
    @rowOfLine?_row ("SUM", tally.total) isName_sum
  rw [render, read_flatMap_lineFeed (lineFeed_not_mem_lines listed named timing)]
  simp only [lines, listed, Style.paint, Bool.false_eq_true, if_false, List.filterMap_cons,
    List.filterMap_append, rowOfLine?_title, rowOfLine?_summary, noWarning, rowOfLine?_rule,
    rowOfLine?_header, eachRow, sums]
  rfl

end Report.Table

end LineTally
