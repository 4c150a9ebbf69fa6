import LineTally.FileSystem.Node
import LineTally.Language.Detection
import LineTally.Language.Table
import LineTally.Line.Classification
import LineTally.Log
import LineTally.Tally.Basic
import LineTally.Timing

/-!
# Counting

A file is read, its language is detected, and its lines are classified.  A file
that cannot be read, is binary, or is in no known language is ignored.  A run
yields the outcomes of all files and what they add up to.
-/

namespace LineTally

/-! ## One file -/

/-- What is known about a file that was counted. -/
structure FileReport where
  path : Path
  language : String
  counts : LineCounts
  anomaly : Option Anomaly
deriving DecidableEq, Repr

/-- Why a file is not counted. -/
inductive IgnoreReason where
  | unreadable (error : FileError)
  | binary
  | unknownLanguage
deriving DecidableEq, Repr

/-- What becomes of one file. -/
inductive FileOutcome where
  | counted (report : FileReport)
  | ignored (path : Path) (reason : IgnoreReason)
deriving DecidableEq, Repr

/-- The profile of the language that a file is in. -/
def profileFor? (path : Path) (content : Bytes) : Option Profile :=
  (detectLanguage? path content).bind Profile.lookup

/-- Count a file that has been read. -/
def countContent (path : Path) (content : Bytes) : FileOutcome :=
  if isBinary content then .ignored path .binary
  else
    match profileFor? path content with
    | none => .ignored path .unknownLanguage
    | some profile =>
        let result := classify profile (readLines content)
        .counted
          { path := path
            language := profile.name
            counts := result.counts
            anomaly := result.anomaly }

/-- Count one file. -/
def countFile (read : Path → Except FileError Bytes) (path : Path) : FileOutcome :=
  match read path with
  | .error error => .ignored path (.unreadable error)
  | .ok content => countContent path content

namespace FileOutcome

/-- The report on a file that was counted. -/
def report? : FileOutcome → Option FileReport
  | .counted report => some report
  | .ignored .. => none

/-- What the log says about a file. -/
def log : FileOutcome → Log
  | .ignored path (.unreadable error) =>
      [⟨.warn, .counter, "failed to read ".toList ++ path.display ++ ": ".toList ++
        error.message.toList⟩]
  | .ignored path .binary =>
      [⟨.debug, .counter, "skipping binary file ".toList ++ path.display⟩]
  | .ignored path .unknownLanguage =>
      [⟨.debug, .counter, "no language for ".toList ++ path.display⟩]
  | .counted report =>
      report.anomaly.toList.map (fun anomaly =>
        ⟨.warn, .counter, report.path.display ++ ": ".toList ++ anomaly.message⟩) ++
      [⟨.debug, .counter, report.path.display ++ " [".toList ++ report.language.toList ++
        "]: blank=".toList ++ Text.ofNat report.counts.blank.toNat ++
        " comment=".toList ++ Text.ofNat report.counts.comment.toNat ++
        " code=".toList ++ Text.ofNat report.counts.code.toNat⟩]

end FileOutcome

/-! ## All files -/

/-- What counting a list of files yields. -/
structure CountRun where
  /-- The reports on the files that were counted, in the order of the files. -/
  reports : List FileReport := []
  tally : Tally := .empty
  throughput : Throughput := {}
deriving DecidableEq, Repr

/-- Tally the outcome of one file. -/
def Tally.addOutcome (tally : Tally) : FileOutcome → Tally
  | .counted report =>
      let tally := tally.accumulate report.language report.counts
      if report.anomaly.isSome then tally.flag else tally
  | .ignored .. => tally.ignore

namespace CountRun

/-- What the outcomes of the files add up to. -/
def ofOutcomes (outcomes : List FileOutcome) : CountRun :=
  let reports := outcomes.filterMap FileOutcome.report?
  { reports := reports
    tally := outcomes.foldl Tally.addOutcome .empty
    throughput := reports.foldl (fun done report => done.record report.counts.total) {} }

end CountRun

/-- The outcome of each file. -/
def countOutcomes (read : Path → Except FileError Bytes) (paths : List Path) :
    List FileOutcome :=
  paths.map (countFile read)

/-- Count all files. -/
def countAll (read : Path → Except FileError Bytes) (paths : List Path) : CountRun :=
  .ofOutcomes (countOutcomes read paths)

end LineTally
