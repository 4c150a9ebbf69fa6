/-!
# Timing

How long a run took and how much it did, and the rates that follow.
-/

namespace LineTally

/-- A length of time. -/
structure Elapsed where
  secs : Nat := 0
  nanos : Nat := 0
deriving DecidableEq, Repr

namespace Elapsed

/-- A length of time whose nanoseconds may exceed a second. -/
def ofParts (secs nanos : Nat) : Elapsed :=
  { secs := secs + nanos / 1000000000, nanos := nanos % 1000000000 }

/-- The length in seconds, each part rounded by itself. -/
def toSeconds (elapsed : Elapsed) : Float :=
  elapsed.secs.toUInt64.toFloat + elapsed.nanos.toUInt64.toFloat / 1000000000.0

end Elapsed

/-- The files and lines dealt with so far. -/
structure Throughput where
  files : UInt64 := 0
  lines : UInt64 := 0
deriving DecidableEq, Repr

/-- One more file with this many lines. -/
def Throughput.record (throughput : Throughput) (lines : UInt64) : Throughput :=
  { files := throughput.files + 1, lines := throughput.lines + lines }

/-- What was done in which time. -/
structure Timing where
  elapsed : Elapsed := {}
  done : Throughput := {}
deriving DecidableEq, Repr

/-- The shortest time that a rate is computed for: a time up to this has rate
zero.  It is 2 to the power -52. -/
def shortestTime : Float :=
  Float.ofBits 0x3CB0000000000000

/-- A number per second. -/
def rate (count : UInt64) (seconds : Float) : Float :=
  if seconds ≤ shortestTime then 0.0 else count.toFloat / seconds

namespace Timing

/-- Files per second. -/
def filesPerSecond (timing : Timing) : Float :=
  rate timing.done.files timing.elapsed.toSeconds

/-- Lines per second. -/
def linesPerSecond (timing : Timing) : Float :=
  rate timing.done.lines timing.elapsed.toSeconds

end Timing

end LineTally
