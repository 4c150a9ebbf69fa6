import LineTally.Proofs.Path.ComponentOrder
import LineTally.Proofs.Report.CsvRows

/-!
# The order of the report on files

The rows of the report are the reports that it was given, in lexicographic order of the
components of their paths, and those of equal paths as they were given.  So a report on files
of different paths is known from the files alone, in whatever order they were dealt with
(`files_are_listed_in_path_order`).
-/

namespace LineTally.Report.Csv

theorem sortByPath_eq_sortBy (reports : List FileReport) :
    sortByPath reports = Path.sortBy (·.path) reports :=
  rfl

theorem sortByPath_perm (reports : List FileReport) : (sortByPath reports).Perm reports :=
  Path.sortBy_perm _ reports

theorem pairwise_le_sortByPath (reports : List FileReport) :
    (sortByPath reports).Pairwise fun first second => first.path.le second.path = true :=
  Path.pairwise_le_sortBy _ reports

theorem filter_components_sortByPath (path : Path) (reports : List FileReport) :
    (sortByPath reports).filter (·.path.components = path.components) =
      reports.filter (·.path.components = path.components) := by
  have asSame : (fun report : FileReport => decide (report.path.components = path.components)) =
      fun report => path.same report.path := by
    funext report
    rw [Bool.eq_iff_iff, decide_eq_true_eq, Path.same_iff, eq_comm]
  rw [asSame]
  exact Path.filter_same_sortBy (·.path) path reports

/-- Of files with different paths the order does not matter. -/
theorem renderFiles_of_perm {reports others : List FileReport}
    (different : reports.Pairwise fun first second =>
      first.path.components ≠ second.path.components)
    (perm : others.Perm reports) : renderFiles others = renderFiles reports := by
  have notSame : reports.Pairwise fun first second => first.path.same second.path = false :=
    different.imp fun unequal => by rwa [← Bool.not_eq_true, Path.same_iff]
  rw [renderFiles, renderFiles, sortByPath_eq_sortBy, sortByPath_eq_sortBy,
    Path.sortBy_of_perm _ notSame perm]

/-- The rows of the report are those of the files in order: a path comes before another if it
does so in the first component in which they differ, or ends before it.  Files whose paths have
the same components are in the order in which they were given.  If there are none, the text of
the report does not depend on that order. -/
theorem files_are_listed_in_path_order (reports : List FileReport) :
    ∃ arranged : List FileReport,
      readFiles (renderFiles reports) = some (arranged.map FileRow.ofReport) ∧
      arranged.Perm reports ∧
      (arranged.Pairwise fun first second =>
        first.path.components = second.path.components ∨
          List.Lex Component.Precedes first.path.components second.path.components) ∧
      (∀ path : Path, arranged.filter (·.path.components = path.components) =
        reports.filter (·.path.components = path.components)) ∧
      ((reports.Pairwise fun first second =>
          first.path.components ≠ second.path.components) →
        ∀ others, others.Perm reports → renderFiles others = renderFiles reports) := by
  refine ⟨sortByPath reports, readFiles_renderFiles reports, sortByPath_perm reports, ?_,
    fun path => filter_components_sortByPath path reports,
    fun different _ perm => renderFiles_of_perm different perm⟩
  exact (pairwise_le_sortByPath reports).imp Path.le_iff_lex.mp

/-- What is in a directory comes before a file whose name goes on with a hyphen, and a second
slash changes nothing. -/
theorem slash_is_listed_before_hyphen :
    let sorted : List FileReport :=
      [⟨.ofText "a//b".toList, "C", ⟨0, 2, 3⟩, none⟩, ⟨.ofText "a/c".toList, "C", ⟨1, 0, 1⟩, none⟩,
        ⟨.ofText "a-b".toList, "Rust", ⟨1, 1, 1⟩, none⟩]
    (sorted.Pairwise fun first second => first.path.components ≠ second.path.components) ∧
      renderFiles sorted.reverse =
        fileHeader ++ "a//b,C,0,2,3,5\na/c,C,1,0,1,2\na-b,Rust,1,1,1,3\n".toList := by
  intro sorted
  have different : sorted.Pairwise fun first second =>
      first.path.components ≠ second.path.components := by
    decide
  have inOrder : sorted.Pairwise fun first second => first.path.le second.path = true := by
    decide
  obtain ⟨_, _, _, _, _, alone⟩ := files_are_listed_in_path_order sorted
  refine ⟨different, ?_⟩
  rw [alone different sorted.reverse (List.reverse_perm sorted), renderFiles, sortByPath,
    List.mergeSort_of_pairwise inOrder]
  decide +kernel

end LineTally.Report.Csv
