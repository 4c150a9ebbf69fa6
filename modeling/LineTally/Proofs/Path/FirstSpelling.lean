import LineTally.Proofs.Path.Sorting

/-!
# The first spelling of a path

Equal paths can be written differently.  Sorting leaves them in the order in which they
were, so that of each path just the first spelling is kept when repeats are left out
(`mem_dropRepeats_sort_iff`).  What is kept is in strict order
(`pairwise_before_dropRepeats_sort`), so it is known from the first spellings alone.
-/

namespace LineTally.Path

variable {first second path : Path} {paths : List Path}

/-! ## Leaving out repeats -/

/-- Of paths in order those are left that are in strict order. -/
theorem pairwise_before_dropRepeatsAfter {last : Path}
    (sorted : (last :: paths).Pairwise (le · ·)) :
    (last :: dropRepeatsAfter last paths).Pairwise Before := by
  induction paths generalizing last with
  | nil => exact List.pairwise_singleton _ _
  | cons next rest inductionHypothesis =>
      obtain ⟨lastLe, nextSorted⟩ := List.pairwise_cons.mp sorted
      rw [dropRepeatsAfter]
      by_cases repeated : last.same next = true
      · rw [if_pos repeated]
        apply inductionHypothesis
        exact List.pairwise_cons.mpr
          ⟨fun path member => lastLe path (List.mem_cons_of_mem _ member), nextSorted.of_cons⟩
      · rw [if_neg repeated]
        have strict := inductionHypothesis nextSorted
        have before := before_of_le (lastLe next List.mem_cons_self) (eq_false_of_ne_true repeated)
        apply List.pairwise_cons.mpr
        refine ⟨fun path member => ?_, strict⟩
        rcases List.mem_cons.mp member with rfl | later
        · exact before
        · exact before.trans (List.rel_of_pairwise_cons strict later)

/-- Of paths in order the first of those that are equal is left. -/
theorem mem_dropRepeatsAfter_iff {last : Path} (sorted : (last :: paths).Pairwise (le · ·)) :
    path ∈ last :: dropRepeatsAfter last paths ↔
      (last :: paths).find? path.same = some path := by
  induction paths generalizing last with
  | nil =>
      by_cases equal : path.same last = true
      · rw [List.find?_cons_of_pos equal]
        simp [dropRepeatsAfter, eq_comm]
      · rw [List.find?_cons_of_neg equal]
        simp only [dropRepeatsAfter, List.mem_singleton, List.find?_nil, reduceCtorEq, iff_false]
        rintro rfl
        exact equal (same_refl path)
  | cons next rest inductionHypothesis =>
      obtain ⟨lastLe, nextSorted⟩ := List.pairwise_cons.mp sorted
      have strict := pairwise_before_dropRepeatsAfter sorted
      by_cases equal : path.same last = true
      · rw [List.find?_cons_of_pos equal, Option.some.injEq, List.mem_cons]
        constructor
        · rintro (rfl | later)
          · rfl
          · have before : last.Before path := List.rel_of_pairwise_cons strict later
            have different := before.not_same
            rw [same_iff.mpr (same_iff.mp equal).symm] at different
            contradiction
        · rintro rfl
          exact .inl rfl
      · rw [List.find?_cons_of_neg equal]
        have notLast : path ≠ last := by
          rintro rfl
          exact equal (same_refl path)
        rw [List.mem_cons, or_iff_right notLast, dropRepeatsAfter]
        by_cases repeated : last.same next = true
        · have restSorted : (last :: rest).Pairwise (le · ·) :=
            List.pairwise_cons.mpr
              ⟨fun other member => lastLe other (List.mem_cons_of_mem _ member), nextSorted.of_cons⟩
          have equalNext : ¬ path.same next = true := by
            rw [same_iff, ← same_iff.mp repeated, ← same_iff]
            exact equal
          have found := inductionHypothesis restSorted
          rw [List.mem_cons, or_iff_right notLast, List.find?_cons_of_neg equal] at found
          rw [if_pos repeated, List.find?_cons_of_neg equalNext, found]
        · rw [if_neg repeated, inductionHypothesis nextSorted]

theorem pairwise_before_dropRepeats_sort (paths : List Path) :
    (dropRepeats (sort paths)).Pairwise Before := by
  have sorted := pairwise_le_sort paths
  cases arranged : sort paths with
  | nil => exact List.Pairwise.nil
  | cons first rest =>
      rw [arranged] at sorted
      exact pairwise_before_dropRepeatsAfter sorted

/-- Of each path the first spelling is kept. -/
theorem mem_dropRepeats_sort_iff :
    path ∈ dropRepeats (sort paths) ↔ paths.find? path.same = some path := by
  have sorted := pairwise_le_sort paths
  rw [← find?_same_sort]
  cases arranged : sort paths with
  | nil => simp [dropRepeats]
  | cons first rest =>
      rw [arranged] at sorted
      exact mem_dropRepeatsAfter_iff sorted

theorem mem_of_mem_dropRepeats_sort (kept : path ∈ dropRepeats (sort paths)) : path ∈ paths :=
  List.mem_of_find?_eq_some (mem_dropRepeats_sort_iff.mp kept)

/-- What is kept is known from the first spelling of each path. -/
theorem dropRepeats_sort_congr {others : List Path}
    (agree : ∀ path : Path, paths.find? path.same = others.find? path.same) :
    dropRepeats (sort paths) = dropRepeats (sort others) := by
  have strict := pairwise_before_dropRepeats_sort paths
  have othersStrict := pairwise_before_dropRepeats_sort others
  have nodup : ∀ {list : List Path}, list.Pairwise Before → list.Nodup := by
    intro list ordered
    apply ordered.imp
    rintro first second before rfl
    exact not_before_self first before
  apply List.Perm.eq_of_pairwise _ strict othersStrict
  · rw [List.perm_ext_iff_of_nodup (nodup strict) (nodup othersStrict)]
    intro path
    rw [mem_dropRepeats_sort_iff, mem_dropRepeats_sort_iff, agree]
  · intro first second _ _ before after
    exact absurd (before.trans after) (not_before_self first)

end LineTally.Path
