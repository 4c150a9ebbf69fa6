import LineTally.Proofs.Path.Repeats
import Mathlib.Data.List.Pairwise
import Mathlib.Data.List.Sort

/-!
# Sorting by path

Paths that come before each other are equal, so that sorting by path leaves only one
arrangement of what has different paths (`sortBy_of_perm`).  What has equal paths stays in
the order in which it was (`filter_same_sortBy`).
-/

namespace LineTally.Path

variable {first second path : Path} {paths : List Path}

/-- The first path comes before the second one and is not equal to it. -/
def Before (first second : Path) : Prop :=
  first.compare second = .lt

instance : DecidableRel Before :=
  fun _ _ => inferInstanceAs (Decidable (_ = _))

@[simp]
theorem same_refl (path : Path) : path.same path = true :=
  same_iff.mpr rfl

theorem le_of_same (same : first.same second = true) : first.le second = true := by
  rw [le, compare_eq_eq_iff.mpr same]
  rfl

theorem Before.trans {third : Path} (earlier : first.Before second)
    (later : second.Before third) : first.Before third :=
  @Std.TransCmp.lt_trans _ compareKeys _ _ _ _ earlier later

theorem Before.not_same (before : first.Before second) : first.same second = false := by
  rw [← Bool.not_eq_true]
  intro same
  have equal := compare_eq_eq_iff.mpr same
  rw [before] at equal
  contradiction

theorem before_of_le (le : first.le second = true) (different : first.same second = false) :
    first.Before second := by
  have notEqual : first.compare second ≠ .eq := by
    intro equal
    rw [compare_eq_eq_iff.mp equal] at different
    contradiction
  unfold Path.le at le
  unfold Before
  cases compared : first.compare second with
  | lt => rfl
  | eq => exact absurd compared notEqual
  | gt =>
      rw [compared] at le
      contradiction

theorem not_before_self (path : Path) : ¬ path.Before path := by
  intro before
  have different := before.not_same
  rw [same_refl] at different
  contradiction

theorem same_comm (first second : Path) : first.same second = second.same first := by
  rw [Bool.eq_iff_iff, same_iff, same_iff, eq_comm]

/-- Paths that come before each other are equal. -/
theorem same_of_le_of_le (firstLe : first.le second = true) (secondLe : second.le first = true) :
    first.same second = true := by
  by_contra notSame
  have different : first.same second = false := eq_false_of_ne_true notSame
  have before : first.Before second := before_of_le firstLe different
  rw [same_comm] at different
  exact not_before_self first (before.trans (before_of_le secondLe different))

/-! ## Sorting -/

section SortingByPath

variable {α : Type} (pathOf : α → Path)

/-- Whatever has a path, in order of the paths. -/
def sortBy (list : List α) : List α :=
  list.mergeSort fun a b => (pathOf a).le (pathOf b)

theorem sortBy_perm (list : List α) : (sortBy pathOf list).Perm list :=
  List.mergeSort_perm list _

theorem pairwise_le_sortBy (list : List α) :
    (sortBy pathOf list).Pairwise fun a b => (pathOf a).le (pathOf b) = true :=
  @List.pairwise_mergeSort _ (fun a b => (pathOf a).le (pathOf b)) (fun _ _ _ => le_trans)
    (fun _ _ => le_total _ _) list

/-- What has equal paths stays in the order in which it was. -/
theorem filter_same_sortBy (path : Path) (list : List α) :
    (sortBy pathOf list).filter (path.same <| pathOf ·) =
      list.filter (path.same <| pathOf ·) := by
  have allSame : (list.filter (path.same <| pathOf ·)).Pairwise
      fun a b => (pathOf a).le (pathOf b) = true := by
    apply List.pairwise_of_forall_mem_list
    intro first firstMem second secondMem
    have firstSame := same_iff.mp (List.mem_filter.mp firstMem).2
    have secondSame := same_iff.mp (List.mem_filter.mp secondMem).2
    exact le_of_same (same_iff.mpr (firstSame.symm.trans secondSame))
  have kept : (list.filter (path.same <| pathOf ·)).Sublist (sortBy pathOf list) :=
    @List.sublist_mergeSort _ (fun a b => (pathOf a).le (pathOf b)) _ (fun _ _ _ => le_trans)
      (fun _ _ => le_total _ _) _ allSame List.filter_sublist
  have keptAgain := kept.filter (path.same <| pathOf ·)
  rw [List.filter_filter] at keptAgain
  simp only [Bool.and_self] at keptAgain
  have lengthEq := ((sortBy_perm pathOf list).filter (path.same <| pathOf ·)).length_eq
  exact (keptAgain.eq_of_length lengthEq.symm).symm

/-- Where no two paths are equal, the order is known from what there is to sort. -/
theorem sortBy_of_perm {list others : List α}
    (different : list.Pairwise fun a b => (pathOf a).same (pathOf b) = false)
    (perm : others.Perm list) : sortBy pathOf others = sortBy pathOf list := by
  apply List.Perm.eq_of_pairwise _ (pairwise_le_sortBy pathOf others)
    (pairwise_le_sortBy pathOf list)
  · exact (sortBy_perm pathOf others).trans (perm.trans (sortBy_perm pathOf list).symm)
  · intro first second firstMem secondMem firstLe secondLe
    have same := same_of_le_of_le firstLe secondLe
    by_contra distinct
    have symmetric : Std.Symm fun a b : α => (pathOf a).same (pathOf b) = false :=
      ⟨fun a b unequal => by rw [same_comm, unequal]⟩
    have firstListed := perm.mem_iff.mp ((sortBy_perm pathOf others).mem_iff.mp firstMem)
    have secondListed := (sortBy_perm pathOf list).mem_iff.mp secondMem
    have notSame := different.forall firstListed secondListed distinct
    rw [same] at notSame
    contradiction

end SortingByPath

theorem pairwise_le_sort (paths : List Path) : (sort paths).Pairwise (le · ·) :=
  pairwise_le_sortBy id paths

theorem sort_of_pairwise (sorted : paths.Pairwise (le · ·)) : sort paths = paths :=
  List.mergeSort_of_pairwise sorted

/-- Equal paths stay in the order in which they were. -/
theorem filter_same_sort (path : Path) (paths : List Path) :
    (sort paths).filter path.same = paths.filter path.same :=
  filter_same_sortBy id path paths

theorem find?_same_sort (path : Path) (paths : List Path) :
    (sort paths).find? path.same = paths.find? path.same := by
  rw [← List.head?_filter, filter_same_sort, List.head?_filter]

end LineTally.Path
