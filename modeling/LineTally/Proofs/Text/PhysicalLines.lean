import Mathlib.Data.List.SplitBy
import LineTally.Text.Lines

/-!
# Physical lines, byte by byte

A line feed ends a line of its own; any other byte belongs to the line of the byte
that follows it.  So there is one physical line for each line feed, and one more if
bytes are left behind the last of them (`length_physicalLines`).

`cutBehind` cuts any list behind each of its marks; the physical lines are the content cut
behind its line feeds (`physicalLines_eq_cutBehind`).
-/

namespace LineTally

private theorem splitByLoop_finished (related : UInt8 → UInt8 → Bool) (rest : Bytes)
    (byte : UInt8) (group : Bytes) (finished : List Bytes) :
    List.splitBy.loop related rest byte group finished =
      finished.reverse ++ List.splitBy.loop related rest byte group [] := by
  induction rest generalizing byte group finished with
  | nil => simp [List.splitBy.loop]
  | cons next more inductionHypothesis =>
      rw [List.splitBy.loop, List.splitBy.loop]
      split
      · exact inductionHypothesis next (byte :: group) finished
      · rw [inductionHypothesis next [] ((byte :: group).reverse :: finished),
          inductionHypothesis next [] [(byte :: group).reverse]]
        simp

private theorem splitByLoop_group (related : UInt8 → UInt8 → Bool) (rest : Bytes)
    (byte : UInt8) (group : Bytes) :
    List.splitBy.loop related rest byte group [] =
      (List.splitBy.loop related rest byte [] []).modifyHead (group.reverse ++ ·) := by
  induction rest generalizing byte group with
  | nil => simp [List.splitBy.loop]
  | cons next more inductionHypothesis =>
      rw [List.splitBy.loop, List.splitBy.loop]
      split
      · rw [inductionHypothesis next (byte :: group), inductionHypothesis next [byte]]
        cases List.splitBy.loop related more next [] [] <;> simp
      · rw [splitByLoop_finished related more next [] [(byte :: group).reverse],
          splitByLoop_finished related more next [] [[byte].reverse]]
        simp

@[simp]
theorem physicalLines_nil : physicalLines [] = [] :=
  rfl

@[simp]
theorem physicalLines_singleton (byte : UInt8) : physicalLines [byte] = [[byte]] :=
  rfl

/-- A line feed ends its line. -/
@[simp]
theorem physicalLines_lineFeed_cons (rest : Bytes) :
    physicalLines (lineFeed :: rest) = [lineFeed] :: physicalLines rest := by
  cases rest with
  | nil => rfl
  | cons next more =>
      exact splitByLoop_finished _ more next [] [[lineFeed]]

/-- Any other byte is the first of the line that goes on behind it. -/
theorem physicalLines_cons_cons {byte : UInt8} (goesOn : byte ≠ lineFeed) (next : UInt8)
    (more : Bytes) :
    physicalLines (byte :: next :: more) =
      (physicalLines (next :: more)).modifyHead (byte :: ·) := by
  have related : (byte != lineFeed) = true := bne_iff_ne.mpr goesOn
  simp only [physicalLines, List.splitBy]
  rw [List.splitBy.loop, related]
  exact splitByLoop_group _ more next [byte]

/-- The number of line feeds, and one more if bytes are left behind the last of them. -/
def lineCount (content : Bytes) : Nat :=
  content.count lineFeed +
    if content ≠ [] ∧ content.getLast? ≠ some lineFeed then 1 else 0

theorem length_physicalLines (content : Bytes) :
    (physicalLines content).length = lineCount content := by
  rw [lineCount]
  induction content with
  | nil => rfl
  | cons byte rest inductionHypothesis =>
      cases rest with
      | nil =>
          by_cases ends : byte = lineFeed
          · simp [ends]
          · simp [ends]
      | cons next more =>
          have last : (byte :: next :: more).getLast? = (next :: more).getLast? :=
            List.getLast?_cons_cons
          by_cases ends : byte = lineFeed
          · subst ends
            rw [physicalLines_lineFeed_cons, List.length_cons, inductionHypothesis, last,
              List.count_cons_self]
            simp only [ne_eq, List.cons_ne_nil, not_false_eq_true, true_and]
            omega
          · rw [physicalLines_cons_cons ends, List.length_modifyHead, inductionHypothesis, last,
              List.count_cons_of_ne ends]
            simp only [ne_eq, List.cons_ne_nil, not_false_eq_true, true_and]

/-! ## Cutting behind a mark -/

section Cut

variable {α : Type*} [DecidableEq α]

/-- The pieces of a list that is cut behind every mark. -/
def cutBehind (mark : α) : List α → List (List α)
  | [] => []
  | a :: rest =>
      if a = mark then [a] :: cutBehind mark rest
      else
        match cutBehind mark rest with
        | [] => [[a]]
        | piece :: pieces => (a :: piece) :: pieces

variable {mark : α}

/-- The piece up to the first mark. -/
theorem cutBehind_append_cons {first : List α} (unmarked : mark ∉ first) (rest : List α) :
    cutBehind mark (first ++ mark :: rest) = (first ++ [mark]) :: cutBehind mark rest := by
  induction first with
  | nil => simp [cutBehind]
  | cons a first inductionHypothesis =>
      obtain ⟨other, unmarked⟩ := List.ne_and_not_mem_of_not_mem_cons unmarked
      rw [List.cons_append, cutBehind, if_neg (Ne.symm other), inductionHypothesis unmarked]
      rfl

theorem cutBehind_of_not_mem {piece : List α} (ne_nil : piece ≠ []) (unmarked : mark ∉ piece) :
    cutBehind mark piece = [piece] := by
  induction piece with
  | nil => contradiction
  | cons a rest inductionHypothesis =>
      obtain ⟨other, unmarked⟩ := List.ne_and_not_mem_of_not_mem_cons unmarked
      rw [cutBehind, if_neg (Ne.symm other)]
      cases rest with
      | nil => rfl
      | cons b rest => rw [inductionHypothesis (List.cons_ne_nil _ _) unmarked]

theorem cutBehind_cons_ne_nil (a : α) (rest : List α) : cutBehind mark (a :: rest) ≠ [] := by
  rw [cutBehind]
  split
  · exact List.cons_ne_nil _ _
  · split <;> exact List.cons_ne_nil _ _

/-- Induction piece by piece. -/
theorem cutBehind_induction {motive : List α → Prop} (nil : motive [])
    (piece : ∀ piece, piece ≠ [] → mark ∉ piece → motive piece)
    (cut : ∀ first rest, mark ∉ first → motive rest → motive (first ++ mark :: rest))
    (list : List α) : motive list := by
  by_cases marked : mark ∈ list
  · obtain ⟨first, rest, cutHere, unmarked⟩ := List.eq_append_cons_of_mem marked
    rw [cutHere]
    exact cut first rest unmarked (cutBehind_induction nil piece cut rest)
  · by_cases empty : list = []
    · exact empty ▸ nil
    · exact piece list empty marked
termination_by list.length
decreasing_by
  rw [cutHere, List.length_append, List.length_cons]
  omega

/-- A mark ends its piece. -/
theorem not_mem_or_eq_concat_of_mem_cutBehind {list piece : List α}
    (mem : piece ∈ cutBehind mark list) :
    mark ∉ piece ∨ ∃ first, mark ∉ first ∧ piece = first ++ [mark] := by
  induction list using @cutBehind_induction _ _ mark with
  | nil => contradiction
  | piece last ne_nil unmarked =>
      rw [cutBehind_of_not_mem ne_nil unmarked, List.mem_singleton] at mem
      exact .inl (mem ▸ unmarked)
  | cut first rest unmarked inductionHypothesis =>
      rw [cutBehind_append_cons unmarked] at mem
      rcases List.mem_cons.mp mem with here | behind
      · exact .inr ⟨first, unmarked, here⟩
      · exact inductionHypothesis behind

end Cut

theorem physicalLines_eq_cutBehind (content : Bytes) :
    physicalLines content = cutBehind lineFeed content := by
  induction content with
  | nil => rfl
  | cons byte rest inductionHypothesis =>
      by_cases ends : byte = lineFeed
      · rw [ends, physicalLines_lineFeed_cons, cutBehind, if_pos rfl, inductionHypothesis]
      · rw [cutBehind, if_neg ends]
        cases rest with
        | nil => rfl
        | cons next more =>
            have pieces : cutBehind lineFeed (next :: more) ≠ [] := cutBehind_cons_ne_nil next more
            obtain ⟨piece, pieces, cut⟩ := List.exists_cons_of_ne_nil pieces
            rw [physicalLines_cons_cons ends, inductionHypothesis, cut]
            rfl

theorem readLines_eq_map_cutBehind (content : Bytes) :
    readLines content = (cutBehind lineFeed content).map lineText := by
  rw [readLines, physicalLines_eq_cutBehind]

/-- The line up to the first line feed, and those behind it. -/
theorem readLines_append_cons {first : Bytes} (unbroken : lineFeed ∉ first) (rest : Bytes) :
    readLines (first ++ lineFeed :: rest) = lineText (first ++ [lineFeed]) :: readLines rest := by
  rw [readLines_eq_map_cutBehind, cutBehind_append_cons unbroken, List.map_cons,
    readLines_eq_map_cutBehind]

theorem readLines_of_not_mem {content : Bytes} (ne_nil : content ≠ [])
    (unbroken : lineFeed ∉ content) : readLines content = [lineText content] := by
  rw [readLines_eq_map_cutBehind, cutBehind_of_not_mem ne_nil unbroken, List.map_singleton]

end LineTally
