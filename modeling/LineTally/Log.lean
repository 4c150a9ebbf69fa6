import LineTally.Text.Basic

/-!
# The log

What a run tells about its progress, apart from its result.
-/

namespace LineTally

namespace Log

/-- How important a record is. -/
inductive Level where
  | trace
  | debug
  | warn
deriving DecidableEq, Repr

/-- The part of the program that a record comes from. -/
inductive Source where
  | discovery
  | counter
  | program
deriving DecidableEq, Repr

/-- One record. -/
structure Record where
  level : Level
  source : Source
  message : Text
deriving DecidableEq, Repr

end Log

/-- The records of a run, in the order in which they arise. -/
abbrev Log := List Log.Record

namespace Log

/-- The name of a level. -/
def Level.name : Level → String
  | .trace => "TRACE"
  | .debug => "DEBUG"
  | .warn => "WARN"

/-- The name of a part of the program. -/
def Source.name : Source → String
  | .discovery => "clocrs::discovery"
  | .counter => "clocrs::counter"
  | .program => "clocrs"

/-- Whether a record is shown.  Warnings always are, and debug records on demand. -/
def Record.isShown (verbose : Bool) (record : Record) : Bool :=
  match record.level with
  | .warn => true
  | .debug => verbose
  | .trace => false

end Log

end LineTally
