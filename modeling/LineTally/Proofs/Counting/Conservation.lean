import Mathlib.Algebra.GroupWithZero.Nat
import LineTally.Counting.Basic
import LineTally.Line.Numbering
import LineTally.Proofs.Tally.Entries
import LineTally.Proofs.Text.PhysicalLines

/-!
# Nothing is lost and nothing is counted twice

A tally of some outcomes holds just what their reports add up to, and one file for
every outcome without a report.  Every outcome that is added keeps it so, and the
lines of a report are the physical lines of the file, so the totals of a whole run
are known from the files alone (`countAll_conserves`).

A counter is a word, so it holds a number up to a multiple of 2 to the power 64: `UInt64.ofNat n`
is the word of `n`, and words are added like the numbers that they stand for.
-/

namespace LineTally

/-- Numbers with the same words have sums with the same word. -/
theorem ofNat_sum_map_congr {α : Type} {list : List α} {first second : α → Nat}
    (same : ∀ a ∈ list, UInt64.ofNat (first a) = .ofNat (second a)) :
    UInt64.ofNat (list.map first).sum = .ofNat (list.map second).sum := by
  induction list with
  | nil => rfl
  | cons a rest inductionHypothesis =>
      rw [List.map_cons, List.sum_cons, List.map_cons, List.sum_cons, UInt64.ofNat_add,
        UInt64.ofNat_add, same a List.mem_cons_self,
        inductionHypothesis fun b member => same b (List.mem_cons_of_mem a member)]

/-- What the reports add up to. -/
def Totals.ofReports (reports : List FileReport) : Totals :=
  { files := .ofNat reports.length
    blank := .ofNat (reports.map (·.counts.blank.toNat)).sum
    comment := .ofNat (reports.map (·.counts.comment.toNat)).sum
    code := .ofNat (reports.map (·.counts.code.toNat)).sum }

namespace Totals

@[simp]
theorem ofReports_singleton (report : FileReport) :
    ofReports [report] = ofFile report.counts := by
  simp [ofReports, ofFile]

theorem ofReports_append (first second : List FileReport) :
    ofReports (first ++ second) = ofReports first + ofReports second := by
  ext1 <;> simp [ofReports]

@[simp]
theorem lines_add (a b : Totals) : (a + b).lines = a.lines + b.lines := by
  simp only [lines, blank_add, comment_add, code_add]
  ac_rfl

theorem lines_ofReports (reports : List FileReport) :
    (ofReports reports).lines = .ofNat (reports.map (·.counts.total.toNat)).sum := by
  induction reports with
  | nil => rfl
  | cons report rest inductionHypothesis =>
      rw [← List.singleton_append, ofReports_append, lines_add, ofReports_singleton, lines_ofFile,
        inductionHypothesis, List.map_append, List.sum_append, UInt64.ofNat_add]
      simp

end Totals

/-! ## The tally -/

/-- The reports among some outcomes. -/
def FileOutcome.reports (outcomes : List FileOutcome) : List FileReport :=
  outcomes.filterMap report?

namespace FileOutcome

theorem reports_append_counted (outcomes : List FileOutcome) (report : FileReport) :
    reports (outcomes ++ [.counted report]) = reports outcomes ++ [report] :=
  List.filterMap_append

theorem reports_append_ignored (outcomes : List FileOutcome) (path : Path)
    (reason : IgnoreReason) : reports (outcomes ++ [.ignored path reason]) = reports outcomes :=
  List.filterMap_append.trans (List.append_nil _)

/-- An outcome has a report or is one of the others. -/
theorem countP_report?_isNone (outcomes : List FileOutcome) :
    outcomes.countP (·.report?.isNone) = outcomes.length - (reports outcomes).length := by
  have reported : (reports outcomes).length = outcomes.countP (·.report?.isSome) :=
    List.length_filterMap_eq_countP
  have each := outcomes.length_eq_countP_add_countP (·.report?.isSome)
  simp only [Bool.not_eq_true, Option.isSome_eq_false_iff] at each
  simp only [reported, Bool.decide_eq_true] at each ⊢
  omega

end FileOutcome

/-- The tally holds what the outcomes add up to. -/
structure Tally.Holds (tally : Tally) (outcomes : List FileOutcome) : Prop where
  languages : ∀ language, tally.get? language =
    if ∃ report ∈ FileOutcome.reports outcomes, report.language = language then
      some (.ofReports ((FileOutcome.reports outcomes).filter (·.language = language)))
    else none
  total : tally.total = .ofReports (FileOutcome.reports outcomes)
  ignored : tally.ignored = .ofNat (outcomes.countP (·.report?.isNone))
  flagged : tally.flagged = .ofNat ((FileOutcome.reports outcomes).countP (·.anomaly.isSome))

namespace Tally

variable {tally : Tally} {outcomes : List FileOutcome}

theorem holds_empty : Tally.empty.Holds [] := by
  refine ⟨?_, rfl, rfl, rfl⟩
  intro language
  rfl

/-- A file that is not counted changes no totals. -/
theorem Holds.ignore (holds : tally.Holds outcomes) (path : Path) (reason : IgnoreReason) :
    tally.ignore.Holds (outcomes ++ [.ignored path reason]) := by
  have reports := FileOutcome.reports_append_ignored outcomes path reason
  constructor
  · rw [reports]
    exact holds.languages
  · rw [reports]
    exact holds.total
  · rw [List.countP_append, UInt64.ofNat_add, ← holds.ignored]
    rfl
  · rw [reports]
    exact holds.flagged

theorem Holds.getD_get? (holds : tally.Holds outcomes) (language : String) :
    (tally.get? language).getD 0 =
      .ofReports ((FileOutcome.reports outcomes).filter (·.language = language)) := by
  rw [holds.languages]
  split
  · rfl
  · next unlisted =>
      have nothing : (FileOutcome.reports outcomes).filter (·.language = language) = [] := by
        rw [List.filter_eq_nil_iff]
        intro report member found
        exact unlisted ⟨report, member, of_decide_eq_true found⟩
      rw [nothing]
      rfl

/-- What is listed for the language of a report grows by the file; what is listed for any
other language stays. -/
theorem Holds.get?_accumulate (holds : tally.Holds outcomes) (report : FileReport)
    (language : String) :
    (tally.accumulate report.language report.counts).get? language =
      if ∃ other ∈ FileOutcome.reports outcomes ++ [report], other.language = language then
        some (.ofReports
          ((FileOutcome.reports outcomes ++ [report]).filter (·.language = language)))
      else none := by
  rw [accumulate, get?_addTotals]
  by_cases same : report.language = language
  · subst same
    have listed : ∃ other ∈ FileOutcome.reports outcomes ++ [report],
        other.language = report.language :=
      ⟨report, List.mem_append_right _ (List.mem_singleton_self report), rfl⟩
    have alone : [report].filter (·.language = report.language) = [report] := by simp
    rw [if_pos rfl, if_pos listed, holds.getD_get?, List.filter_append, Totals.ofReports_append,
      alone, Totals.ofReports_singleton]
  · have listedIff : (∃ other ∈ FileOutcome.reports outcomes ++ [report],
        other.language = language) ↔
          ∃ other ∈ FileOutcome.reports outcomes, other.language = language := by
      simp only [List.mem_append, List.mem_singleton]
      constructor
      · rintro ⟨other, earlier | rfl, found⟩
        · exact ⟨other, earlier, found⟩
        · exact absurd found same
      · rintro ⟨other, earlier, found⟩
        exact ⟨other, .inl earlier, found⟩
    have nothing : [report].filter (·.language = language) = [] := by simp [same]
    rw [if_neg same, holds.languages, List.filter_append, nothing, List.append_nil]
    simp only [listedIff]

/-- A report changes the totals of its language. -/
theorem Holds.accumulate (holds : tally.Holds outcomes) (report : FileReport) :
    (tally.addOutcome (.counted report)).Holds (outcomes ++ [.counted report]) := by
  have reports := FileOutcome.reports_append_counted outcomes report
  have languages := holds.get?_accumulate report
  have total : (tally.accumulate report.language report.counts).total =
      .ofReports (FileOutcome.reports outcomes ++ [report]) := by
    rw [Tally.accumulate, total_addTotals, Totals.ofReports_append, Totals.ofReports_singleton,
      holds.total]
  rw [← reports] at languages total
  have ignored : tally.ignored =
      .ofNat ((outcomes ++ [FileOutcome.counted report]).countP (·.report?.isNone)) := by
    rw [List.countP_append, holds.ignored]
    rfl
  have flagged := holds.flagged
  simp only [addOutcome]
  split
  · next isFlagged =>
      refine ⟨languages, total, ignored, ?_⟩
      rw [reports, List.countP_append, UInt64.ofNat_add, ← flagged]
      simp [flag, Tally.accumulate, addTotals, isFlagged]
  · next notFlagged =>
      refine ⟨languages, total, ignored, ?_⟩
      rw [reports, List.countP_append, UInt64.ofNat_add, ← flagged]
      simp [Tally.accumulate, addTotals, notFlagged]

/-- Every outcome that is added keeps the tally right. -/
theorem Holds.addOutcome (holds : tally.Holds outcomes) (outcome : FileOutcome) :
    (tally.addOutcome outcome).Holds (outcomes ++ [outcome]) := by
  cases outcome with
  | counted report => exact holds.accumulate report
  | ignored path reason => exact holds.ignore path reason

theorem Holds.foldl_addOutcome (holds : tally.Holds outcomes) (further : List FileOutcome) :
    (further.foldl Tally.addOutcome tally).Holds (outcomes ++ further) := by
  induction further generalizing tally outcomes with
  | nil => rwa [List.append_nil]
  | cons outcome rest inductionHypothesis =>
      have added := inductionHypothesis (holds.addOutcome outcome)
      rwa [List.append_assoc] at added

/-- The languages of a tally are those of the reports. -/
theorem Holds.exists_entry_iff (holds : tally.Holds outcomes) (language : String) :
    (∃ entry ∈ tally.languages, entry.1 = language) ↔
      ∃ report ∈ FileOutcome.reports outcomes, report.language = language := by
  rw [← Entries.isSome_get?_iff]
  change (tally.get? language).isSome ↔ _
  rw [holds.languages]
  split <;> simp [*]

/-- An entry of a tally is what the reports on its language add up to. -/
theorem Holds.totals_of_mem (holds : tally.Holds outcomes) {entry : String × Totals}
    (member : entry ∈ tally.languages) :
    entry.2 = .ofReports ((FileOutcome.reports outcomes).filter (·.language = entry.1)) := by
  have listed : tally.get? entry.1 = some entry.2 := tally.sorted.get?_of_mem member
  rw [holds.languages] at listed
  split at listed
  · exact (Option.some.inj listed).symm
  · contradiction

end Tally

/-! ## The other counters -/

/-- The throughput counts the reports and their lines. -/
theorem Throughput.foldl_record (reports : List FileReport) (done : Throughput) :
    reports.foldl (fun done report => done.record report.counts.total) done =
      { files := done.files + .ofNat reports.length
        lines := done.lines + .ofNat (reports.map (·.counts.total.toNat)).sum } := by
  induction reports generalizing done with
  | nil => simp
  | cons report rest inductionHypothesis =>
      rw [List.foldl_cons, inductionHypothesis, List.length_cons, List.map_cons, List.sum_cons,
        Nat.add_comm, UInt64.ofNat_add, UInt64.ofNat_add, UInt64.ofNat_toNat, ← UInt64.add_assoc,
        ← UInt64.add_assoc]
      rfl

/-- The content of a file that is counted. -/
def countedContent? (read : Path → Except FileError Bytes) (path : Path) : Option Bytes :=
  match read path with
  | .error _ => none
  | .ok content => if (countContent path content).report?.isSome then some content else none

/-- The lines of a report are the physical lines of the file. -/
theorem total_counts_of_countContent {path : Path} {content : Bytes} {report : FileReport}
    (counted : countContent path content = .counted report) :
    report.counts.total = .ofNat (lineCount content) := by
  unfold countContent at counted
  split at counted
  · contradiction
  · split at counted
    · contradiction
    · next profile _ =>
        cases counted
        calc
          (classify profile (readLines content)).counts.total =
              .ofNat (classify profile (readLines content)).tags.length :=
            LineCounts.total_ofKinds _
          _ = .ofNat (physicalLines content).length := by
            rw [length_tags_classify, readLines, List.length_map]
          _ = .ofNat (lineCount content) := by rw [length_physicalLines]

theorem map_total_counts_report? (read : Path → Except FileError Bytes) (path : Path) :
    (countFile read path).report?.map (·.counts.total) =
      (countedContent? read path).map fun content => .ofNat (lineCount content) := by
  unfold countFile countedContent?
  cases read path with
  | error => rfl
  | ok content =>
      cases outcome : countContent path content with
      | ignored => simp [outcome, FileOutcome.report?]
      | counted report =>
          simp [outcome, FileOutcome.report?, total_counts_of_countContent outcome]

/-! ## A whole run -/

theorem holds_tally_countAll (read : Path → Except FileError Bytes) (paths : List Path) :
    (countAll read paths).tally.Holds (paths.map (countFile read)) :=
  Tally.holds_empty.foldl_addOutcome (paths.map (countFile read))

theorem length_reports_countAll_le (read : Path → Except FileError Bytes) (paths : List Path) :
    (countAll read paths).reports.length ≤ paths.length :=
  (List.length_filterMap_le _ _).trans_eq (List.length_map _)

theorem throughput_countAll (read : Path → Except FileError Bytes) (paths : List Path) :
    (countAll read paths).throughput =
      { files := .ofNat (countAll read paths).reports.length
        lines := .ofNat ((countAll read paths).reports.map (·.counts.total.toNat)).sum } := by
  apply (Throughput.foldl_record _ {}).trans
  rw [UInt64.zero_add, UInt64.zero_add]
  rfl

theorem map_total_counts_reports (read : Path → Except FileError Bytes) (paths : List Path) :
    (countAll read paths).reports.map (·.counts.total) =
      (paths.filterMap (countedContent? read)).map fun content => .ofNat (lineCount content) := by
  calc
    (countAll read paths).reports.map (·.counts.total) =
        paths.filterMap fun path => (countFile read path).report?.map (·.counts.total) := by
      simp only [countAll, countOutcomes, CountRun.ofOutcomes, List.filterMap_map,
        List.map_filterMap, Function.comp_def]
    _ = paths.filterMap fun path =>
          (countedContent? read path).map fun content => .ofNat (lineCount content) := by
      simp only [map_total_counts_report?]
    _ = (paths.filterMap (countedContent? read)).map fun content => .ofNat (lineCount content) :=
      List.map_filterMap.symm

theorem lines_throughput_countAll (read : Path → Except FileError Bytes) (paths : List Path) :
    (countAll read paths).throughput.lines =
      .ofNat ((paths.filterMap (countedContent? read)).map lineCount).sum := by
  have totals := congrArg (List.map UInt64.toNat) (map_total_counts_reports read paths)
  simp only [List.map_map, Function.comp_def] at totals
  rw [throughput_countAll, totals]
  exact ofNat_sum_map_congr fun _ _ => UInt64.ofNat_toNat

theorem map_counted_filterMap_report? (outcomes : List FileOutcome) :
    (outcomes.filterMap FileOutcome.report?).map .counted =
      outcomes.filter (·.report?.isSome) := by
  induction outcomes with
  | nil => rfl
  | cons outcome rest inductionHypothesis =>
      cases outcome with
      | counted report => exact congrArg (FileOutcome.counted report :: ·) inductionHypothesis
      | ignored path reason => exact inductionHypothesis

/-- The reports are the outcomes of the files that are counted, in the order of the files;
every file has a report or is ignored; each language, all languages together and the
throughput hold what the reports add up to; and the lines are the physical lines of the
files that are counted.  A counter that has not wrapped around holds the number itself
(`UInt64.toNat_ofNat_of_lt'`). -/
theorem countAll_conserves (read : Path → Except FileError Bytes) (paths : List Path) :
    (countAll read paths).reports.map .counted =
        (paths.map (countFile read)).filter (·.report?.isSome) ∧
      (countAll read paths).tally.total.files = .ofNat (countAll read paths).reports.length ∧
      (countAll read paths).throughput.files = .ofNat (countAll read paths).reports.length ∧
      (countAll read paths).reports.length ≤ paths.length ∧
      (countAll read paths).tally.ignored =
        .ofNat (paths.length - (countAll read paths).reports.length) ∧
      (countAll read paths).tally.flagged =
        .ofNat ((countAll read paths).reports.countP (·.anomaly.isSome)) ∧
      (∀ language, (countAll read paths).tally.get? language =
        if ∃ report ∈ (countAll read paths).reports, report.language = language then
          some (.ofReports
            ((countAll read paths).reports.filter (·.language = language)))
        else none) ∧
      (countAll read paths).tally.total.lines = (countAll read paths).throughput.lines ∧
      (countAll read paths).throughput.lines =
        .ofNat ((paths.filterMap (countedContent? read)).map lineCount).sum := by
  have holds := holds_tally_countAll read paths
  have throughput := throughput_countAll read paths
  have reports : FileOutcome.reports (paths.map (countFile read)) =
      (countAll read paths).reports := rfl
  refine ⟨map_counted_filterMap_report? _, ?_, ?_, length_reports_countAll_le read paths, ?_,
    holds.flagged, holds.languages, ?_, lines_throughput_countAll read paths⟩
  · rw [holds.total, reports]
    rfl
  · rw [throughput]
  · rw [holds.ignored, FileOutcome.countP_report?_isNone, reports, List.length_map]
  · rw [holds.total, reports, Totals.lines_ofReports, throughput]

end LineTally
