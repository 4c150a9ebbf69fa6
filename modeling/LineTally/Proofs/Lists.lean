import Mathlib.Data.List.Basic
import Mathlib.Data.List.DropRight

/-!
# Lists

What a list leaves of another one when it is filtered or cut at its end.
-/

namespace LineTally

/-! ## Filtering what comes of a list -/

theorem flatMap_filter {α β : Type} (keeps : α → Bool) (f : α → List β) (l : List α) :
    (l.filter keeps).flatMap f = l.flatMap fun a => if keeps a then f a else [] := by
  induction l with
  | nil => rfl
  | cons a rest inductionHypothesis =>
      rw [List.flatMap_cons, ← inductionHypothesis]
      cases keep : keeps a with
      | true => rw [List.filter_cons_of_pos keep, List.flatMap_cons, if_pos rfl]
      | false => rw [List.filter_cons_of_neg (by simp [keep])]; rfl

/-- To filter what comes of a list is to leave out members of which nothing is kept. -/
theorem flatMap_filter_eq_filter_flatMap {α β : Type} {l : List α} {keeps : α → Bool}
    {wants : β → Bool} {f g : α → List β}
    (kept : ∀ a ∈ l, keeps a = true → f a = (g a).filter wants)
    (leftOut : ∀ a ∈ l, keeps a = false → (g a).filter wants = []) :
    (l.filter keeps).flatMap f = (l.flatMap g).filter wants := by
  rw [flatMap_filter, List.filter_flatMap]
  apply List.flatMap_congr
  intro a member
  cases keep : keeps a with
  | true => exact kept a member keep
  | false => exact (leftOut a member keep).symm

/-! ## The end of a list

A list can be cut behind the last element that fails a test.  There is one such cut: what comes
before it is what `rdropWhile` leaves, and what comes behind it is what `rtakeWhile` takes
(`rdropWhile_append`, `rtakeWhile_append`). -/

variable {α : Type} {p : α → Bool} {first last : List α}

/-- The list is empty, or its last element fails. -/
def StopsAt (p : α → Bool) (list : List α) : Prop :=
  ∀ a, list.getLast? = some a → p a = false

theorem stopsAt_nil : StopsAt p [] := by
  intro a last
  contradiction

theorem stopsAt_concat {a : α} (fails : p a = false) : StopsAt p (first ++ [a]) := by
  intro b last
  rw [List.getLast?_concat, Option.some.injEq] at last
  rwa [← last]

theorem StopsAt.takeWhile_reverse (stops : StopsAt p first) :
    first.reverse.takeWhile p = [] ∧ first.reverse.dropWhile p = first.reverse := by
  cases reversed : first.reverse with
  | nil => exact ⟨rfl, rfl⟩
  | cons a rest =>
      have fails : ¬ p a = true := by
        rw [stops a (by rw [List.getLast?_eq_head?_reverse, reversed, List.head?_cons])]
        exact Bool.false_ne_true
      exact ⟨List.takeWhile_cons_of_neg fails, List.dropWhile_cons_of_neg fails⟩

theorem rdropWhile_append (stops : StopsAt p first) (goesOn : ∀ a ∈ last, p a = true) :
    (first ++ last).rdropWhile p = first := by
  have reversed : ∀ a ∈ last.reverse, p a = true := fun a member =>
    goesOn a (List.mem_reverse.mp member)
  rw [List.rdropWhile, List.reverse_append, List.dropWhile_append_of_pos reversed,
    stops.takeWhile_reverse.2, List.reverse_reverse]

theorem rtakeWhile_append (stops : StopsAt p first) (goesOn : ∀ a ∈ last, p a = true) :
    (first ++ last).rtakeWhile p = last := by
  have reversed : ∀ a ∈ last.reverse, p a = true := fun a member =>
    goesOn a (List.mem_reverse.mp member)
  rw [List.rtakeWhile, List.reverse_append, List.takeWhile_append_of_pos reversed,
    stops.takeWhile_reverse.1, List.append_nil, List.reverse_reverse]

/-- Every list has such a cut. -/
theorem stopsAt_rdropWhile (list : List α) : StopsAt p (list.rdropWhile p) := by
  intro a last
  have stopped := List.head?_dropWhile_not p list.reverse
  rw [List.rdropWhile, List.getLast?_reverse] at last
  rwa [last] at stopped

/-- An element stands in a list for a last time. -/
theorem exists_last_cut {a : α} {list : List α} (member : a ∈ list) :
    ∃ before behind, list = before ++ a :: behind ∧ a ∉ behind := by
  obtain ⟨behind, before, reversed, fresh⟩ :=
    List.eq_append_cons_of_mem (List.mem_reverse.mpr member)
  refine ⟨before.reverse, behind.reverse, ?_, mt List.mem_reverse.mp fresh⟩
  rw [← List.reverse_inj, reversed]
  simp

end LineTally
