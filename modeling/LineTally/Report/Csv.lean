import LineTally.Counting.Basic
import LineTally.Path.Order
import LineTally.Tally.Basic

/-!
# Comma-separated reports

One record a line.  A field that holds a comma, a double quote or a line feed is
put in double quotes, and the double quotes in it are doubled.
-/

namespace LineTally.Report.Csv

/-- Whether a field that holds this character has to be quoted. -/
def needsQuotes (c : Char) : Bool :=
  c = ',' || c = '"' || c = '\n'

/-- The text with each double quote written twice. -/
def doubleQuotes (text : Text) : Text :=
  text.flatMap fun c => if c = '"' then ['"', '"'] else [c]

/-- One field. -/
def field (text : Text) : Text :=
  if text.any needsQuotes then '"' :: doubleQuotes text ++ ['"'] else text

/-- One record of fields that are written already. -/
def line (fields : List Text) : Text :=
  [','].intercalate fields ++ ['\n']

/-- The names of the columns of a report on languages. -/
def languageHeader : Text :=
  "Language,files,blank,comment,code\n".toList

/-- The record of one language. -/
def languageLine (name : String) (totals : Totals) : Text :=
  line [field name.toList, Text.ofNat totals.files.toNat, Text.ofNat totals.blank.toNat,
    Text.ofNat totals.comment.toNat, Text.ofNat totals.code.toNat]

/-- The report on languages, in order of their names. -/
def renderLanguages (tally : Tally) : Text :=
  languageHeader ++ tally.languages.flatMap fun entry => languageLine entry.1 entry.2

/-- The names of the columns of a report on files. -/
def fileHeader : Text :=
  "File,Language,Blank,Comment,Code,Total\n".toList

/-- The record of one file. -/
def fileLine (report : FileReport) : Text :=
  line [field report.path.display, field report.language.toList,
    Text.ofNat report.counts.blank.toNat, Text.ofNat report.counts.comment.toNat,
    Text.ofNat report.counts.code.toNat, Text.ofNat report.counts.total.toNat]

/-- Reports in order of their paths; those of equal paths stay as they were. -/
def sortByPath (reports : List FileReport) : List FileReport :=
  reports.mergeSort fun first second => first.path.le second.path

/-- The report on files, in order of their paths. -/
def renderFiles (reports : List FileReport) : Text :=
  fileHeader ++ (sortByPath reports).flatMap fileLine

end LineTally.Report.Csv
