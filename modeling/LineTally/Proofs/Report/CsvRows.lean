import LineTally.Proofs.Report.CsvReader
import LineTally.Proofs.Text.Decimal
import LineTally.Proofs.Text.Utf8Order

/-!
# Reading the comma-separated reports

A report is a table: a record that names its columns and below it the rows, in each of
which the fields of some columns are numbers.  Both reports are read back in full, row by
row and in the order in which they were written, whatever the names of languages and
files are (`readLanguages_renderLanguages` and `readFiles_renderFiles`).
-/

namespace LineTally.Report.Csv

/-- The rows below the record that names the columns. -/
def readTable {Row : Type} (columns : List Text) (ofRecord? : List Text → Option Row)
    (text : Text) : Option (List Row) :=
  match read text with
  | some (header :: records) => if header = columns then records.mapM ofRecord? else none
  | _ => none

/-- A row of the report on languages. -/
structure LanguageRow where
  language : Text
  files : Nat
  blank : Nat
  comment : Nat
  code : Nat
deriving DecidableEq, Repr

/-- A row of the report on files. -/
structure FileRow where
  path : Text
  language : Text
  blank : Nat
  comment : Nat
  code : Nat
  total : Nat
deriving DecidableEq, Repr

/-- The columns of the report on languages. -/
def languageColumns : List Text :=
  ["Language".toList, "files".toList, "blank".toList, "comment".toList, "code".toList]

/-- The columns of the report on files. -/
def fileColumns : List Text :=
  ["File".toList, "Language".toList, "Blank".toList, "Comment".toList, "Code".toList,
    "Total".toList]

/-- The row that a record of the report on languages stands for. -/
def LanguageRow.ofRecord? : List Text → Option LanguageRow
  | [language, files, blank, comment, code] => do
      return {
        language := language
        files := ← files.toNat?
        blank := ← blank.toNat?
        comment := ← comment.toNat?
        code := ← code.toNat? }
  | _ => none

/-- The row that a record of the report on files stands for. -/
def FileRow.ofRecord? : List Text → Option FileRow
  | [path, language, blank, comment, code, total] => do
      return {
        path := path
        language := language
        blank := ← blank.toNat?
        comment := ← comment.toNat?
        code := ← code.toNat?
        total := ← total.toNat? }
  | _ => none

/-- The rows of a report on languages. -/
def readLanguages (text : Text) : Option (List LanguageRow) :=
  readTable languageColumns LanguageRow.ofRecord? text

/-- The rows of a report on files. -/
def readFiles (text : Text) : Option (List FileRow) :=
  readTable fileColumns FileRow.ofRecord? text

/-! ## What is written -/

/-- The row of a language with these totals. -/
def LanguageRow.ofEntry (entry : String × Totals) : LanguageRow :=
  { language := entry.1.toList
    files := entry.2.files.toNat
    blank := entry.2.blank.toNat
    comment := entry.2.comment.toNat
    code := entry.2.code.toNat }

/-- The row of a file. -/
def FileRow.ofReport (report : FileReport) : FileRow :=
  { path := report.path.display
    language := report.language.toList
    blank := report.counts.blank.toNat
    comment := report.counts.comment.toNat
    code := report.counts.code.toNat
    total := report.counts.total.toNat }

theorem LanguageRow.ofEntry_injective : Function.Injective ofEntry := by
  intro first second same
  simp only [ofEntry, mk.injEq, String.toList_inj, UInt64.toNat_inj] at same
  exact Prod.ext same.1 (Totals.ext_iff.mpr same.2)

/-- The rows of a tally are in strictly increasing order of the bytes of their names. -/
theorem pairwise_map_ofEntry (tally : Tally) :
    (tally.languages.map LanguageRow.ofEntry).Pairwise fun first second =>
      Utf8.encode first.language < Utf8.encode second.language :=
  List.pairwise_map.mpr (tally.sorted.imp fun before => Utf8.encode_lt_encode_iff.mpr before)

/-- The texts of the fields of a row. -/
def LanguageRow.record (row : LanguageRow) : List Text :=
  [row.language, Text.ofNat row.files, Text.ofNat row.blank, Text.ofNat row.comment,
    Text.ofNat row.code]

/-- The texts of the fields of a row. -/
def FileRow.record (row : FileRow) : List Text :=
  [row.path, row.language, Text.ofNat row.blank, Text.ofNat row.comment, Text.ofNat row.code,
    Text.ofNat row.total]

@[simp]
theorem LanguageRow.ofRecord?_record (row : LanguageRow) : ofRecord? row.record = some row := by
  simp [ofRecord?, record]

@[simp]
theorem FileRow.ofRecord?_record (row : FileRow) : ofRecord? row.record = some row := by
  simp [ofRecord?, record]

/-- Numbers are written without quotes. -/
@[simp]
theorem field_ofNat (n : Nat) : field (Text.ofNat n) = Text.ofNat n := by
  have plain : (Text.ofNat n).any needsQuotes = false := by
    rw [List.any_eq_false]
    intro c member
    simp [needsQuotes, Text.ne_of_mem_ofNat member]
  rw [field, plain]
  rfl

theorem languageHeader_eq_line : languageHeader = line (languageColumns.map field) := by
  decide

theorem fileHeader_eq_line : fileHeader = line (fileColumns.map field) := by
  decide

theorem languageLine_eq_line (entry : String × Totals) :
    languageLine entry.1 entry.2 = line ((LanguageRow.ofEntry entry).record.map field) := by
  simp [languageLine, LanguageRow.ofEntry, LanguageRow.record]

theorem fileLine_eq_line (report : FileReport) :
    fileLine report = line ((FileRow.ofReport report).record.map field) := by
  simp [fileLine, FileRow.ofReport, FileRow.record]

/-- The report on languages is a table with one row for each entry of the tally. -/
theorem renderLanguages_eq_flatMap_line (tally : Tally) :
    renderLanguages tally =
      (languageColumns :: (tally.languages.map LanguageRow.ofEntry).map LanguageRow.record).flatMap
        fun record => line (record.map field) := by
  rw [renderLanguages, languageHeader_eq_line, funext languageLine_eq_line, List.flatMap_cons,
    List.flatMap_map, List.flatMap_map]

/-- The report on files is a table with one row for each file, in order of their paths. -/
theorem renderFiles_eq_flatMap_line (reports : List FileReport) :
    renderFiles reports =
      (fileColumns :: ((sortByPath reports).map FileRow.ofReport).map FileRow.record).flatMap
        fun record => line (record.map field) := by
  rw [renderFiles, fileHeader_eq_line, funext fileLine_eq_line, List.flatMap_cons,
    List.flatMap_map, List.flatMap_map]

/-! ## Reading it back -/

/-- A table is taken apart into the record of its columns and one for each of its rows. -/
theorem read_table {Row : Type} {columns : List Text} {record : Row → List Text}
    (named : columns ≠ []) (filled : ∀ row, record row ≠ []) (rows : List Row) :
    read ((columns :: rows.map record).flatMap fun record => line (record.map field)) =
      some (columns :: rows.map record) := by
  apply read_flatMap_line
  intro fields member
  rcases List.mem_cons.mp member with rfl | below
  · exact named
  · obtain ⟨row, -, rfl⟩ := List.mem_map.mp below
    exact filled row

/-- A table is read back if each of its rows is. -/
theorem readTable_flatMap_line {Row : Type} {columns : List Text}
    {ofRecord? : List Text → Option Row} {record : Row → List Text} (named : columns ≠ [])
    (filled : ∀ row, record row ≠ []) (readable : ∀ row, ofRecord? (record row) = some row)
    (rows : List Row) :
    readTable columns ofRecord?
        ((columns :: rows.map record).flatMap fun record => line (record.map field)) =
      some rows := by
  have rowByRow : (rows.map record).mapM ofRecord? = some rows := by
    have each : ofRecord? ∘ record = some := funext readable
    rw [List.mapM_map, each]
    exact (List.mapM_pure (f := id)).trans (congrArg some (List.map_id rows))
  simp only [readTable, read_table named filled, if_pos, rowByRow]

/-- The records of a report on languages. -/
theorem read_renderLanguages (tally : Tally) :
    read (renderLanguages tally) =
      some (languageColumns ::
        (tally.languages.map LanguageRow.ofEntry).map LanguageRow.record) := by
  rw [renderLanguages_eq_flatMap_line]
  exact read_table (List.cons_ne_nil _ _) (fun _ => List.cons_ne_nil _ _) _

/-- The records of a report on files. -/
theorem read_renderFiles (reports : List FileReport) :
    read (renderFiles reports) =
      some (fileColumns :: ((sortByPath reports).map FileRow.ofReport).map FileRow.record) := by
  rw [renderFiles_eq_flatMap_line]
  exact read_table (List.cons_ne_nil _ _) (fun _ => List.cons_ne_nil _ _) _

theorem readLanguages_renderLanguages (tally : Tally) :
    readLanguages (renderLanguages tally) = some (tally.languages.map LanguageRow.ofEntry) := by
  rw [renderLanguages_eq_flatMap_line]
  exact readTable_flatMap_line (List.cons_ne_nil _ _) (fun _ => List.cons_ne_nil _ _)
    LanguageRow.ofRecord?_record _

theorem readFiles_renderFiles (reports : List FileReport) :
    readFiles (renderFiles reports) = some ((sortByPath reports).map FileRow.ofReport) := by
  rw [renderFiles_eq_flatMap_line]
  exact readTable_flatMap_line (List.cons_ne_nil _ _) (fun _ => List.cons_ne_nil _ _)
    FileRow.ofRecord?_record _

end LineTally.Report.Csv
