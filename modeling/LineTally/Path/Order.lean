import LineTally.Path.Basic

/-!
# The order of paths

Paths are compared component by component, not as text: a root comes before a
dot, a dot before two dots, and those before names, which are compared byte by
byte.  Two paths that are written differently can be equal in this order.
-/

namespace LineTally

/-- A list of numbers that is in the same order as the components are. -/
def Component.key : Component → List Nat
  | .root => [0]
  | .current => [1]
  | .parent => [2]
  | .name bytes => 3 :: bytes.map UInt8.toNat

namespace Path

/-- What a path is compared by. -/
def key (path : Path) : List (List Nat) :=
  path.components.map Component.key

/-- How two keys compare: the first component that differs decides, and in it the
first number. -/
abbrev compareKeys : List (List Nat) → List (List Nat) → Ordering :=
  List.compareLex (List.compareLex Ord.compare)

/-- How two paths compare, component by component. -/
def compare (first second : Path) : Ordering :=
  compareKeys first.key second.key

/-- Whether the first path comes before the second or is equal to it. -/
def le (first second : Path) : Bool :=
  (first.compare second).isLE

/-- Whether two paths have the same components. -/
def same (first second : Path) : Bool :=
  first.key = second.key

theorem le_trans {first second third : Path} (before : first.le second)
    (after : second.le third) : first.le third :=
  @Std.TransCmp.isLE_trans _ compareKeys _ _ _ _ before after

/-- Of two paths one comes first, or they are equal. -/
theorem le_total (first second : Path) : first.le second || second.le first := by
  have swapped : second.compare first = (first.compare second).swap :=
    @Std.OrientedCmp.eq_swap _ compareKeys _ _ _
  unfold le
  rw [swapped]
  cases first.compare second <;> rfl

/-- Equal in the order means that the components agree. -/
theorem compare_eq_eq_iff {first second : Path} :
    first.compare second = .eq ↔ first.same second := by
  simp only [same, decide_eq_true_eq]
  exact @Std.LawfulEqCmp.compare_eq_iff_eq _ compareKeys _ _ _

/-- In order; paths that are equal in this order stay as they were. -/
def sort (paths : List Path) : List Path :=
  paths.mergeSort le

/-- Leave out the paths that are equal to `last`, the one before them, and of every
later run of equal paths all but the first. -/
def dropRepeatsAfter (last : Path) : List Path → List Path
  | [] => []
  | path :: rest =>
      if last.same path then dropRepeatsAfter last rest
      else path :: dropRepeatsAfter path rest

/-- Keep the first of each run of equal paths. -/
def dropRepeats : List Path → List Path
  | [] => []
  | path :: rest => path :: dropRepeatsAfter path rest

end Path

end LineTally
