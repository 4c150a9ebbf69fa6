import Mathlib.Data.List.Dedup
import LineTally.Proofs.Counting.Conservation
import LineTally.Proofs.Report.ColumnSums

/-!
# The two comma-separated reports agree

The rows of the report on files, grouped by language and added up, are the rows of the
report on languages, but for sums that do not fit in a word: those are printed as they have
wrapped around.  Only what is read back from the two texts is compared: the rows of
files are in the order of their paths and know nothing of a tally, and the tally has seen
the outcomes in their own order and knows nothing of paths (`reports_agree`).
-/

namespace LineTally.Report.Csv

/-- Names come in the order of their bytes. -/
def nameLE (first second : Text) : Bool :=
  decide (Utf8.encode first ≤ Utf8.encode second)

/-- What the rows of the files of a language add up to. -/
def LanguageRow.ofFiles (files : List FileRow) (language : Text) : LanguageRow :=
  let own := files.filter (·.language = language)
  { language := language
    files := own.length
    blank := (own.map (·.blank)).sum
    comment := (own.map (·.comment)).sum
    code := (own.map (·.code)).sum }

/-- The rows of a report on files, added up language by language. -/
def byLanguage (files : List FileRow) : List LanguageRow :=
  ((files.map (·.language)).dedup.mergeSort nameLE).map (LanguageRow.ofFiles files)

/-! ## Grouping -/

/-- The order of the files does not matter. -/
theorem LanguageRow.ofFiles_of_perm {files others : List FileRow} (same : files.Perm others)
    (language : Text) : ofFiles files language = ofFiles others language := by
  have own := same.filter (·.language = language)
  simp only [ofFiles, mk.injEq, true_and]
  exact ⟨own.length_eq, (own.map _).sum_nat, (own.map _).sum_nat, (own.map _).sum_nat⟩

theorem LanguageRow.wrap_ofFiles_map_ofReport (reports : List FileReport) (language : String) :
    (ofFiles (reports.map FileRow.ofReport) language.toList).wrap =
      ofEntry (language, .ofReports (reports.filter (·.language = language))) := by
  simp [ofFiles, wrap, ofEntry, Totals.ofReports, FileRow.ofReport, List.filter_map,
    Function.comp_def, String.toList_inj]

theorem nameLE_trans (first second third : Text) (before : nameLE first second)
    (after : nameLE second third) : nameLE first third := by
  simp only [nameLE, decide_eq_true_eq] at *
  exact Std.le_trans before after

theorem nameLE_total (first second : Text) : nameLE first second || nameLE second first := by
  simp only [nameLE, Bool.or_eq_true, decide_eq_true_eq]
  exact Std.le_total

/-- Names in strict order are known from which names they are. -/
theorem eq_mergeSort_dedup {names others : List Text}
    (sorted : names.Pairwise fun first second => Utf8.encode first < Utf8.encode second)
    (same : ∀ name, name ∈ names ↔ name ∈ others) :
    names = others.dedup.mergeSort nameLE := by
  have nodup : names.Nodup :=
    sorted.imp fun before equal => Std.ne_of_lt before (congrArg Utf8.encode equal)
  have perm : names.Perm (others.dedup.mergeSort nameLE) := by
    refine .trans ?_ (List.mergeSort_perm _ _).symm
    rw [List.perm_ext_iff_of_nodup nodup (List.nodup_dedup _)]
    intro name
    rw [same, List.mem_dedup]
  -- Two lists in the same order are equal, since different names have different bytes.
  refine perm.eq_of_pairwise ?_
    (sorted.imp fun before => decide_eq_true (Std.le_of_lt before))
    (List.pairwise_mergeSort nameLE_trans nameLE_total _)
  intro first second _ _ before after
  exact Utf8.encode_injective
    (Std.le_antisymm (of_decide_eq_true before) (of_decide_eq_true after))

/-- Rows in the order of their names are those of the groups, if there is one for every
language and each holds in words what the files of its language add up to. -/
theorem eq_byLanguage {rows : List LanguageRow} {files : List FileRow}
    (sorted : rows.Pairwise fun first second =>
      Utf8.encode first.language < Utf8.encode second.language)
    (names : ∀ name, name ∈ rows.map (·.language) ↔ name ∈ files.map (·.language))
    (each : ∀ row ∈ rows, row = (LanguageRow.ofFiles files row.language).wrap) :
    rows = (byLanguage files).map LanguageRow.wrap := by
  calc
    rows = rows.map fun row => (LanguageRow.ofFiles files row.language).wrap :=
      (List.map_id rows).symm.trans (List.map_congr_left each)
    _ = ((rows.map (·.language)).map (LanguageRow.ofFiles files)).map LanguageRow.wrap := by
      rw [List.map_map, List.map_map, Function.comp_def, Function.comp_def]
    _ = (byLanguage files).map LanguageRow.wrap := by
      rw [eq_mergeSort_dedup (List.pairwise_map.mpr sorted) names, byLanguage]

/-! ## The rows of both reports -/

/-- What the reports of some outcomes are read back as, grouped and added up in words, is what
their tally is read back as. -/
theorem map_ofEntry_eq_byLanguage {tally : Tally} {outcomes : List FileOutcome}
    (holds : tally.Holds outcomes) {files : List FileRow}
    (same : files.Perm ((FileOutcome.reports outcomes).map FileRow.ofReport)) :
    tally.languages.map LanguageRow.ofEntry = (byLanguage files).map LanguageRow.wrap := by
  apply eq_byLanguage (pairwise_map_ofEntry tally)
  · intro name
    rw [(same.map _).mem_iff]
    simp only [List.mem_map, exists_exists_and_eq_and]
    constructor
    · rintro ⟨entry, member, rfl⟩
      obtain ⟨report, reported, language⟩ :=
        (holds.exists_entry_iff entry.1).mp ⟨entry, member, rfl⟩
      exact ⟨report, reported, congrArg String.toList language⟩
    · rintro ⟨report, reported, rfl⟩
      obtain ⟨entry, member, language⟩ :=
        (holds.exists_entry_iff report.language).mpr ⟨report, reported, rfl⟩
      exact ⟨entry, member, congrArg String.toList language⟩
  · intro row member
    obtain ⟨entry, listed, rfl⟩ := List.mem_map.mp member
    calc
      LanguageRow.ofEntry entry =
          LanguageRow.ofEntry (entry.1, .ofReports
            ((FileOutcome.reports outcomes).filter (·.language = entry.1))) := by
        rw [← holds.totals_of_mem listed]
      _ = (LanguageRow.ofFiles ((FileOutcome.reports outcomes).map FileRow.ofReport)
            entry.1.toList).wrap := (LanguageRow.wrap_ofFiles_map_ofReport _ _).symm
      _ = (LanguageRow.ofFiles files entry.1.toList).wrap := by
        rw [LanguageRow.ofFiles_of_perm same]

/-- Rows whose numbers fit in words stay as they are. -/
theorem map_wrap_eq {rows : List LanguageRow} (fit : ∀ row ∈ rows, row.Fits) :
    rows.map LanguageRow.wrap = rows :=
  (List.map_congr_left fun row member => (fit row member).wrap_eq).trans (List.map_id rows)

theorem FileRow.total_of_mem {reports : List FileReport} {row : FileRow}
    (member : row ∈ reports.map FileRow.ofReport) :
    row.total = (row.blank + row.comment + row.code) % 2 ^ 64 := by
  obtain ⟨report, -, rfl⟩ := List.mem_map.mp member
  simp only [ofReport, LineCounts.total, UInt64.toNat_add, Nat.mod_add_mod]

end LineTally.Report.Csv
