import LineTally.CommandLine.Options
import LineTally.Counting.Basic
import LineTally.Discovery.Basic
import LineTally.Report.Csv
import LineTally.Report.Json
import LineTally.Report.Table
import LineTally.Text.Control

/-!
# A run

A run finds the files, counts them and tells what came of it.  It depends on the
file system only through three functions: what a path leads to, what a file holds,
and how a directory is read.
-/

namespace LineTally

/-- What a run yields, and what it tells about its progress. -/
structure Run where
  log : Log
  result : Except Failure CountRun

namespace Run

/-- What the log says when the files have been found. -/
def foundRecord (found : Discovery) : Log.Record :=
  ⟨.debug, .program,
    Text.ofNat found.files.length ++ " files to examine, ".toList ++
      Text.ofNat found.errors ++ " unreadable entries".toList⟩

/-- Find the files and count them.  A filespec that is malformed is noticed first. -/
def ofOptions (options : Options) (find : Path → Except FileError Node)
    (read : Path → Except FileError Bytes) (list : DirectoryReader := .ofTree) : Run :=
  match options.walkOptions with
  | .error failure => { log := [], result := .error failure }
  | .ok walkOptions =>
      let searchLog := Discovery.log walkOptions find options.paths list
      match Discovery.discover walkOptions find options.paths list with
      | none => { log := searchLog, result := .error .noInputs }
      | some found =>
          let outcomes := countOutcomes read found.files
          { log := searchLog ++ foundRecord found :: outcomes.flatMap FileOutcome.log
            result := .ok (.ofOutcomes outcomes) }

end Run

/-- What a program leaves behind. -/
structure Exit where
  code : Nat
  output : Text := []
  /-- What goes to the error channel, each line ended by a line feed. -/
  errors : Text := []
deriving DecidableEq, Repr

namespace Log

/-- The colour of a level. -/
def Level.style : Level → Style
  | .trace => .cyan
  | .debug => .blue
  | .warn => .yellow

/-- The name of a level, filled up to five characters. -/
def Level.label (level : Level) : Text :=
  Report.Table.padRight 5 level.name.toList

/-- A record as a line of text.  The message goes on in the fifth column after a line
feed. -/
def Record.line (color : Bool) (record : Record) : Text :=
  Style.brightBlack.paint color ['['] ++
    record.level.style.paint color record.level.label ++
    ' ' :: record.source.name.toList ++
    Style.brightBlack.paint color [']'] ++
    ' ' :: record.message.flatMap (fun c => if c = '\n' then "\n    ".toList else [c]) ++ ['\n']

/-- A record as it is shown.  Where there is no colour there is no terminal, and the
line is made plain, its end included. -/
def Record.render (color : Bool) (record : Record) : Text :=
  let line := record.line color
  if color then line else line.plain

end Log

/-- The report on a tally. -/
def Report.render (format : Format) (color : Bool) (tally : Tally) (timing : Timing) : Text :=
  match format with
  | .text => Table.render color tally timing
  | .json => Json.render tally
  | .csv => Csv.renderLanguages tally

namespace Run

/-- The report that was asked for. -/
def report (options : Options) (color : Bool) (elapsed : Elapsed) (count : CountRun) : Text :=
  if options.byFile then Report.Csv.renderFiles count.reports
  else Report.render options.format color count.tally ⟨elapsed, count.throughput⟩

/-- The message about a failure. -/
def failureLine (color : Bool) (failure : Failure) : Text :=
  Style.boldRed.paint color "error".toList ++ ": ".toList ++ failure.message ++ ['\n']

/-- What the program leaves behind after a run that took the given time.  `forced`
tells whether colour is wanted where there is no terminal; the log does not heed
the option against colour. -/
def toExit (options : Options) (forced : Bool) (elapsed : Elapsed) (run : Run) : Exit :=
  let color := forced && !options.noColor
  let shown := (run.log.filter (Log.Record.isShown options.verbose)).flatMap
    (Log.Record.render forced)
  match run.result with
  | .ok count => { code := 0, output := report options color elapsed count, errors := shown }
  | .error failure => { code := 1, errors := shown ++ failureLine color failure }

end Run

end LineTally
