import LineTally.Decimal.Fixed
import LineTally.Tally.Basic
import LineTally.Timing

/-!
# The table report

The report for people: a title with the rates of the run, a summary, and a table
with a row for each language and one for all of them together.  On a terminal that
shows colour, some of it is set off.
-/

namespace LineTally

/-- A way to set text off, as the numbers of the terminal's control sequence. -/
inductive Style where
  | boldBrightCyan
  | brightYellow
  | boldRed
  | bold
  | brightBlack
  | yellow
  | blue
  | cyan
deriving DecidableEq, Repr

/-- The numbers of the control sequence. -/
def Style.code : Style → String
  | .boldBrightCyan => "1;96"
  | .brightYellow => "93"
  | .boldRed => "1;31"
  | .bold => "1"
  | .brightBlack => "90"
  | .yellow => "33"
  | .blue => "34"
  | .cyan => "36"

/-- The text in a style, or plain where there is no colour. -/
def Style.paint (style : Style) (color : Bool) (text : Text) : Text :=
  if color then "\x1b[".toList ++ style.code.toList ++ "m".toList ++ text ++ "\x1b[0m".toList
  else text

namespace Report.Table

/-- The name under which the program introduces itself. -/
def programName : Text :=
  "clocrs".toList

/-- The version of the program. -/
def programVersion : Text :=
  "0.1.0".toList

/-- The width of the first column. -/
def nameWidth : Nat := 30

/-- The width of the whole table. -/
def tableWidth : Nat := 78

/-- Filled up with blanks on the right; never cut. -/
def padRight (width : Nat) (text : Text) : Text :=
  text ++ List.replicate (width - text.length) ' '

/-- Filled up with blanks on the left; never cut. -/
def padLeft (width : Nat) (text : Text) : Text :=
  List.replicate (width - text.length) ' ' ++ text

/-- One row of the table. -/
def columns (name files blank comment code : Text) : Text :=
  padRight nameWidth name ++ ' ' :: padLeft 8 files ++ ' ' :: padLeft 12 blank ++
    ' ' :: padLeft 12 comment ++ ' ' :: padLeft 12 code

/-- The row of one language. -/
def row (name : Text) (totals : Totals) : Text :=
  columns name (Text.ofNat totals.files.toNat) (Text.ofNat totals.blank.toNat)
    (Text.ofNat totals.comment.toNat) (Text.ofNat totals.code.toNat)

/-- The line above and below the parts of the table. -/
def rule : Text :=
  List.replicate tableWidth '-'

/-- The first line of the report. -/
def title (color : Bool) (timing : Timing) : Text :=
  Style.boldBrightCyan.paint color programName ++
    ' ' :: Style.brightYellow.paint color ('v' :: programVersion) ++
    "  T=".toList ++ Decimal.fixed 2 timing.elapsed.toSeconds ++
    " s (".toList ++ Decimal.fixed 1 timing.filesPerSecond ++
    " files/s, ".toList ++ Decimal.fixed 1 timing.linesPerSecond ++ " lines/s)".toList

/-- How many files were counted and how many were not. -/
def summary (tally : Tally) : Text :=
  Text.ofNat tally.total.files.toNat ++ " text files counted, ".toList ++
    Text.ofNat tally.ignored.toNat ++ " files ignored.".toList

/-- The line that tells of files that end inside an open region, if there are
any. -/
def warning (color : Bool) (tally : Tally) : List Text :=
  if tally.flagged = 0 then []
  else
    [Style.boldRed.paint color "Warning".toList ++ ": ".toList ++ Text.ofNat tally.flagged.toNat ++
      " files end inside an unterminated comment or string.".toList]

/-- The lines of the report. -/
def lines (color : Bool) (tally : Tally) (timing : Timing) : List Text :=
  title color timing ::
    if tally.isEmpty then ["No files found to count.".toList]
    else
      summary tally :: warning color tally ++
        [rule,
          columns "Language".toList "files".toList "blank".toList "comment".toList
            "code".toList,
          rule] ++
        tally.languages.map (fun entry => row entry.1.toList entry.2) ++
        [rule, Style.bold.paint color (row "SUM".toList tally.total), rule]

/-- The report, each line ended by a line feed. -/
def render (color : Bool) (tally : Tally) (timing : Timing) : Text :=
  (lines color tally timing).flatMap (· ++ ['\n'])

end Report.Table

end LineTally
