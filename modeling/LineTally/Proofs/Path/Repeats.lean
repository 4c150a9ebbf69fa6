import LineTally.Path.Order
import Mathlib.Data.List.Basic

/-!
# Sorting paths and leaving out repeats

Paths are equal in their order just if their components are the same (`same_iff`).
Sorting and leaving out repeats loses no path but for its spelling
(`exists_mem_dropRepeats_sort_iff`).
-/

namespace LineTally

theorem Component.key_injective : Function.Injective Component.key := by
  intro first second keyEq
  cases first <;> cases second <;> simp [key] at keyEq ⊢
  case name.name => exact List.map_injective_iff.mpr (fun _ _ => UInt8.toNat_inj.mp) keyEq

namespace Path

theorem same_iff {first second : Path} :
    first.same second = true ↔ first.components = second.components := by
  rw [same, decide_eq_true_eq, key, key]
  exact (List.map_injective_iff.mpr Component.key_injective).eq_iff

@[simp]
theorem mem_sort {path : Path} {paths : List Path} : path ∈ sort paths ↔ path ∈ paths :=
  List.mem_mergeSort

/-- Of each path that is left out the one before the repeats is kept. -/
theorem exists_mem_dropRepeatsAfter_iff {last path : Path} {paths : List Path} :
    (∃ found ∈ last :: dropRepeatsAfter last paths, found.components = path.components) ↔
      ∃ found ∈ last :: paths, found.components = path.components := by
  induction paths generalizing last with
  | nil => rfl
  | cons next rest inductionHypothesis =>
      rw [dropRepeatsAfter]
      by_cases repeated : last.same next = true
      · have sameComponents := same_iff.mp repeated
        rw [if_pos repeated, inductionHypothesis]
        simp [sameComponents]
      · rw [if_neg repeated]
        simp only [List.exists_mem_cons_iff (a := last)]
        rw [inductionHypothesis]

theorem exists_mem_dropRepeats_iff {path : Path} {paths : List Path} :
    (∃ found ∈ dropRepeats paths, found.components = path.components) ↔
      ∃ found ∈ paths, found.components = path.components := by
  cases paths with
  | nil => rfl
  | cons first rest => exact exists_mem_dropRepeatsAfter_iff

theorem exists_mem_dropRepeats_sort_iff {path : Path} {paths : List Path} :
    (∃ found ∈ dropRepeats (sort paths), found.components = path.components) ↔
      ∃ found ∈ paths, found.components = path.components := by
  simp only [exists_mem_dropRepeats_iff, mem_sort]

end Path

end LineTally
