import LineTally.Discovery.Walk

/-!
# What a run is asked for
-/

namespace LineTally

/-- The forms in which a tally can be written. -/
inductive Report.Format where
  | text
  | json
  | csv
deriving DecidableEq, Repr

/-- The format of this name. -/
def Report.Format.ofName? : String → Option Format
  | "text" => some .text
  | "json" => some .json
  | "csv" => some .csv
  | _ => none

/-- The options of a run. -/
structure Options where
  /-- Where to look for files. -/
  paths : List Path
  /-- More names of directories that are not entered. -/
  excludedNames : List Text := []
  filespec : Option Text := none
  maxDepth : Nat := 100
  nonRecursive : Bool := false
  format : Report.Format := .text
  /-- Whether to report on each file instead of each language. -/
  byFile : Bool := false
  /-- How many threads are asked for; the result does not depend on it. -/
  jobs : Option Nat := none
  noColor : Bool := false
  verbose : Bool := false
deriving DecidableEq, Repr

/-- Why a run fails. -/
inductive Failure where
  | badFilespec (pattern : Text) (error : Glob.PatternError)
  | noInputs
deriving DecidableEq, Repr

/-- The wording for people. -/
def Failure.message : Failure → Text
  | .badFilespec pattern error =>
      "Invalid filespec pattern '".toList ++ pattern ++ "': ".toList ++ error.message.toList
  | .noInputs => "none of the given paths exist".toList

/-- Read an optional filespec. -/
def compileFilespec (filespec : Option Text) : Except Failure (Option Glob.Pattern) :=
  match filespec with
  | none => .ok none
  | some pattern =>
      match Glob.Pattern.compile pattern with
      | .ok compiled => .ok (some compiled)
      | .error error => .error (.badFilespec pattern error)

/-- How directories are searched. -/
def Options.walkOptions (options : Options) : Except Failure WalkOptions := do
  return {
    excludedNames := WalkOptions.defaultExcluded ++ options.excludedNames.map Utf8.encode
    filespec := ← compileFilespec options.filespec
    maxDepth := options.maxDepth
    nonRecursive := options.nonRecursive }

end LineTally
