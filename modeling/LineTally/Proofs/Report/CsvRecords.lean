import LineTally.Proofs.Report.FileOrder
import LineTally.Proofs.Text.LossyDecoding

/-!
# What the comma-separated reports decode to

A reader of comma-separated records finds in a report the names of the columns and below them
one record for each language or file, with the texts and numbers that were reported, whatever
the names of languages and files are (`reports_decode_to_their_data`).
-/

namespace LineTally

/-- A path that was given as a text is displayed as that text. -/
theorem Path.display_ofText (text : Text) : (Path.ofText text).display = text :=
  Utf8.decode_encode text

namespace Report.Csv

/-- The records of the report on languages are its columns and one for each language, in strictly
increasing order of the bytes of their names; those of the report on files are its columns and
one for each file, in order of their paths.  Each field is the text that was reported, and each
number is read back from its decimal digits. -/
theorem reports_decode_to_their_data (tally : Tally) (reports : List FileReport) :
    read (renderLanguages tally) =
        some (["Language".toList, "files".toList, "blank".toList, "comment".toList,
            "code".toList] ::
          tally.languages.map fun entry =>
            [entry.1.toList, Text.ofNat entry.2.files.toNat, Text.ofNat entry.2.blank.toNat,
              Text.ofNat entry.2.comment.toNat, Text.ofNat entry.2.code.toNat]) ∧
      (tally.languages.Pairwise fun first second =>
        Utf8.encode first.1.toList < Utf8.encode second.1.toList) ∧
      read (renderFiles reports) =
        some (["File".toList, "Language".toList, "Blank".toList, "Comment".toList,
            "Code".toList, "Total".toList] ::
          (sortByPath reports).map fun report =>
            [report.path.display, report.language.toList,
              Text.ofNat report.counts.blank.toNat, Text.ofNat report.counts.comment.toNat,
              Text.ofNat report.counts.code.toNat, Text.ofNat report.counts.total.toNat]) ∧
      (sortByPath reports).Perm reports ∧
      ((sortByPath reports).Pairwise fun first second => first.path.le second.path = true) ∧
      (∀ text : Text, (Path.ofText text).display = text) ∧
      ∀ n : Nat, (Text.ofNat n).toNat? = some n := by
  refine ⟨?_, ?_, ?_, sortByPath_perm reports, pairwise_le_sortByPath reports,
    Path.display_ofText, Text.toNat?_ofNat⟩
  · rw [read_renderLanguages, List.map_map]
    rfl
  · exact tally.sorted.imp fun before => Utf8.encode_lt_encode_iff.mpr before
  · rw [read_renderFiles, List.map_map]
    rfl

/-- Quotes at the edges of a text are part of it, also where it looks quoted already. -/
example : read (line [field "\"a\"".toList, field [], field "b,\r\n\"".toList]) =
    some [["\"a\"".toList, [], "b,\r\n\"".toList]] := by
  decide

end Report.Csv

end LineTally
