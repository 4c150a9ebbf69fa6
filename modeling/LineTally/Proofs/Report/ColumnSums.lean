import Mathlib.Algebra.GroupWithZero.Nat
import LineTally.Proofs.Report.CsvRows
import LineTally.Proofs.Tally.Entries

/-!
# The sums of the columns

The totals of a tally are the sums of the columns of its rows.  They are printed as the
counters hold them, so a sum that does not fit in a word has wrapped around
(`wrap_columnSums_map_ofEntry`).
-/

namespace LineTally

/-- What is counted of the totals of a tally is the word of the sum of what is counted of each
language. -/
theorem Tally.ofNat_sum_map_languages (tally : Tally) (count : Totals → UInt64)
    (zero : count 0 = 0)
    (add : ∀ first second, count (first + second) = count first + count second) :
    UInt64.ofNat (tally.languages.map fun entry => (count entry.2).toNat).sum =
      count tally.total := by
  rw [total_eq_total_languages, Entries.total]
  induction tally.languages with
  | nil => exact zero.symm
  | cons entry rest inductionHypothesis =>
      rw [List.map_cons, List.sum_cons, List.map_cons, List.sum_cons, add, UInt64.ofNat_add,
        UInt64.ofNat_toNat, inductionHypothesis]

theorem Tally.sum_map_languages_mod (tally : Tally) (count : Totals → UInt64)
    (zero : count 0 = 0)
    (add : ∀ first second, count (first + second) = count first + count second) :
    (tally.languages.map fun entry => (count entry.2).toNat).sum % 2 ^ 64 =
      (count tally.total).toNat := by
  rw [← tally.ofNat_sum_map_languages count zero add, UInt64.toNat_ofNat']

namespace Report.Csv

/-- The row with its numbers as words hold them, up to multiples of 2 to the power 64. -/
def LanguageRow.wrap (row : LanguageRow) : LanguageRow :=
  { row with
    files := row.files % 2 ^ 64
    blank := row.blank % 2 ^ 64
    comment := row.comment % 2 ^ 64
    code := row.code % 2 ^ 64 }

/-- Each number of the row fits in a word. -/
structure LanguageRow.Fits (row : LanguageRow) : Prop where
  files : row.files < 2 ^ 64
  blank : row.blank < 2 ^ 64
  comment : row.comment < 2 ^ 64
  code : row.code < 2 ^ 64

/-- Numbers that fit stay as they are. -/
theorem LanguageRow.Fits.wrap_eq {row : LanguageRow} (fits : row.Fits) : row.wrap = row := by
  rw [wrap, Nat.mod_eq_of_lt fits.files, Nat.mod_eq_of_lt fits.blank,
    Nat.mod_eq_of_lt fits.comment, Nat.mod_eq_of_lt fits.code]

/-- The sums of the columns of some rows, as one row with this name. -/
def LanguageRow.columnSums (name : Text) (rows : List LanguageRow) : LanguageRow :=
  { language := name
    files := (rows.map (·.files)).sum
    blank := (rows.map (·.blank)).sum
    comment := (rows.map (·.comment)).sum
    code := (rows.map (·.code)).sum }

/-- The totals of a tally, read as a row, are what words hold of the sums of the columns. -/
theorem LanguageRow.wrap_columnSums_map_ofEntry (name : String) (tally : Tally) :
    (columnSums name.toList (tally.languages.map ofEntry)).wrap = ofEntry (name, tally.total) := by
  simp only [columnSums, wrap, List.map_map]
  congr 1
  · exact tally.sum_map_languages_mod Totals.files rfl Totals.files_add
  · exact tally.sum_map_languages_mod Totals.blank rfl Totals.blank_add
  · exact tally.sum_map_languages_mod Totals.comment rfl Totals.comment_add
  · exact tally.sum_map_languages_mod Totals.code rfl Totals.code_add

end Report.Csv

end LineTally
