import LineTally.Counting.Basic
import LineTally.Proofs.Tally.Merge

/-!
# Counting in parallel

Outcomes may be tallied by several workers.  The list is cut into pieces, each
piece is tallied by itself, and the partial tallies are merged two by two until one
is left.  A `Schedule` is one way to do so.

To add an outcome is to merge its own tally, so a schedule amounts to the tally of
all outcomes one after the other, in whatever order they come
(`tally_eq_foldl_of_perm`).
-/

namespace LineTally

/-- How a list of outcomes is cut into pieces, and in which order their tallies are
merged. -/
inductive Schedule where
  /-- A worker that is given nothing. -/
  | idle
  /-- A worker that tallies one piece of the list. -/
  | piece (outcomes : List FileOutcome)
  | merge (left right : Schedule)
deriving Repr

namespace Schedule

/-- The list that is cut. -/
def outcomes : Schedule → List FileOutcome
  | idle => []
  | piece outcomes => outcomes
  | merge left right => left.outcomes ++ right.outcomes

/-- What the workers come up with together. -/
def tally : Schedule → Tally
  | idle => .empty
  | piece outcomes => outcomes.foldl Tally.addOutcome .empty
  | merge left right => left.tally.merge right.tally

end Schedule

namespace Tally

/-- To add an outcome is to merge the tally of that outcome alone. -/
theorem addOutcome_eq_merge (tally : Tally) (outcome : FileOutcome) :
    tally.addOutcome outcome = tally.merge (empty.addOutcome outcome) := by
  cases outcome with
  | ignored path reason => exact ext_get? (fun _ => rfl) rfl (UInt64.add_zero _).symm
  | counted report =>
      simp only [addOutcome]
      split
      · exact ext_get? (fun _ => rfl) (UInt64.add_zero _).symm rfl
      · exact accumulate_eq_merge tally report.language report.counts

/-- To go on from a tally is to merge what a fresh tally makes of the same outcomes. -/
theorem foldl_addOutcome_eq_merge (outcomes : List FileOutcome) (tally : Tally) :
    outcomes.foldl addOutcome tally = tally.merge (outcomes.foldl addOutcome empty) := by
  induction outcomes generalizing tally with
  | nil => exact (merge_empty tally).symm
  | cons outcome rest inductionHypothesis =>
      calc
        rest.foldl addOutcome (tally.addOutcome outcome) =
            (tally.addOutcome outcome).merge (rest.foldl addOutcome empty) :=
          inductionHypothesis _
        _ = tally.merge ((empty.addOutcome outcome).merge (rest.foldl addOutcome empty)) := by
          rw [addOutcome_eq_merge, merge_assoc]
        _ = tally.merge (rest.foldl addOutcome (empty.addOutcome outcome)) := by
          rw [← inductionHypothesis]

theorem foldl_addOutcome_append (first second : List FileOutcome) :
    (first ++ second).foldl addOutcome empty =
      (first.foldl addOutcome empty).merge (second.foldl addOutcome empty) := by
  rw [List.foldl_append, foldl_addOutcome_eq_merge]

theorem addOutcome_right_comm (tally : Tally) (first second : FileOutcome) :
    (tally.addOutcome first).addOutcome second = (tally.addOutcome second).addOutcome first := by
  calc
    (tally.addOutcome first).addOutcome second =
        tally.merge ((empty.addOutcome first).merge (empty.addOutcome second)) := by
      rw [addOutcome_eq_merge, addOutcome_eq_merge tally, merge_assoc]
    _ = tally.merge ((empty.addOutcome second).merge (empty.addOutcome first)) := by
      rw [merge_comm (empty.addOutcome first)]
    _ = (tally.addOutcome second).addOutcome first := by
      rw [← merge_assoc, ← addOutcome_eq_merge, ← addOutcome_eq_merge]

/-- The order of the outcomes does not matter. -/
theorem foldl_addOutcome_of_perm {first second : List FileOutcome}
    (arranged : first.Perm second) (tally : Tally) :
    first.foldl addOutcome tally = second.foldl addOutcome tally :=
  arranged.foldl_eq' (fun _ _ _ _ _ => addOutcome_right_comm _ _ _) tally

end Tally

namespace Schedule

/-- Cutting a list and merging the tallies of its pieces yields the tally of the list. -/
theorem tally_eq_foldl (schedule : Schedule) :
    schedule.tally = schedule.outcomes.foldl Tally.addOutcome .empty := by
  induction schedule with
  | idle => rfl
  | piece outcomes => rfl
  | merge left right leftHypothesis rightHypothesis =>
      rw [tally, outcomes, Tally.foldl_addOutcome_append, leftHypothesis, rightHypothesis]

/-- Whatever the schedule, and in whatever order it takes the outcomes, the workers come
up with the tally of the outcomes one after the other. -/
theorem tally_eq_foldl_of_perm (outcomes : List FileOutcome) (schedule : Schedule)
    (arranged : schedule.outcomes.Perm outcomes) :
    schedule.tally = outcomes.foldl Tally.addOutcome .empty := by
  rw [tally_eq_foldl, Tally.foldl_addOutcome_of_perm arranged]

/-- The tally of one worker that is idle, one that is given a shell script with an open
string, and one that is given another shell script and a file that it ignores. -/
theorem tally_of_three_workers :
    (merge (merge idle (piece [.counted ⟨⟨[1]⟩, "Shell", ⟨0, 0, 1⟩, some ⟨.string, 1, ['"']⟩⟩]))
        (piece [.ignored ⟨[2]⟩ .binary, .counted ⟨⟨[3]⟩, "Shell", ⟨1, 2, 3⟩, none⟩])).outcomes.Perm
      [.counted ⟨⟨[3]⟩, "Shell", ⟨1, 2, 3⟩, none⟩,
        .counted ⟨⟨[1]⟩, "Shell", ⟨0, 0, 1⟩, some ⟨.string, 1, ['"']⟩⟩, .ignored ⟨[2]⟩ .binary] ∧
    (merge (merge idle (piece [.counted ⟨⟨[1]⟩, "Shell", ⟨0, 0, 1⟩, some ⟨.string, 1, ['"']⟩⟩]))
        (piece [.ignored ⟨[2]⟩ .binary, .counted ⟨⟨[3]⟩, "Shell", ⟨1, 2, 3⟩, none⟩])).tally =
      [.counted ⟨⟨[3]⟩, "Shell", ⟨1, 2, 3⟩, none⟩,
        .counted ⟨⟨[1]⟩, "Shell", ⟨0, 0, 1⟩, some ⟨.string, 1, ['"']⟩⟩,
        .ignored ⟨[2]⟩ .binary].foldl Tally.addOutcome .empty :=
  have arranged := by decide
  ⟨arranged, tally_eq_foldl_of_perm _ _ arranged⟩

end Schedule

end LineTally
