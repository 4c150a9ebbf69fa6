import LineTally.Proofs.Path.Sorting

/-!
# The order of paths, component by component

Paths are in lexicographic order of their components (`before_iff_lex`): a root comes
before a dot, a dot before two dots, these before every name, and names are in the order of
their bytes.  A slash is no character of this order.
-/

namespace LineTally

/-- Lists are in lexicographic order just if what they are compared by is. -/
theorem compareLex_map_eq_lt_iff {α β : Type} {cmp : β → β → Ordering} {key : α → β}
    {precedes : α → α → Prop} (less : ∀ a b, cmp (key a) (key b) = .lt ↔ precedes a b)
    (equal : ∀ a b, cmp (key a) (key b) = .eq ↔ a = b) (first second : List α) :
    List.compareLex cmp (first.map key) (second.map key) = .lt ↔
      List.Lex precedes first second := by
  induction first generalizing second with
  | nil => cases second <;> simp [List.compareLex_nil_nil, List.compareLex_nil_cons]
  | cons a first inductionHypothesis =>
      cases second with
      | nil => simp [List.compareLex_cons_nil]
      | cons b second =>
          rw [List.map_cons, List.map_cons, List.compareLex_cons_cons, Ordering.then_eq_lt, less,
            equal, inductionHypothesis, List.cons_lex_cons_iff]

namespace Component

/-- The first component comes before the second one. -/
def Precedes : Component → Component → Prop
  | _, .root => False
  | .root, _ => True
  | _, .current => False
  | .current, _ => True
  | _, .parent => False
  | .parent, _ => True
  | .name first, .name second => first < second

theorem compare_bytes_eq_lt_iff (first second : Bytes) :
    List.compareLex Ord.compare (first.map UInt8.toNat) (second.map UInt8.toNat) = .lt ↔
      first < second := by
  have less : ∀ a b : UInt8, Ord.compare a.toNat b.toNat = .lt ↔ a < b := by
    intro a b
    rw [Nat.compare_eq_lt, UInt8.lt_iff_toNat_lt]
  have equal : ∀ a b : UInt8, Ord.compare a.toNat b.toNat = .eq ↔ a = b := by
    intro a b
    rw [Nat.compare_eq_eq, UInt8.toNat_inj]
  exact (compareLex_map_eq_lt_iff less equal first second).trans List.lex_lt

theorem compare_key_eq_lt_iff (first second : Component) :
    List.compareLex Ord.compare first.key second.key = .lt ↔ first.Precedes second := by
  cases first <;> cases second
  case name.name first second =>
    exact compare_bytes_eq_lt_iff first second
  all_goals
    simp [key, Precedes, List.compareLex_nil_nil, List.compareLex_cons_cons,
      Ordering.then_eq_lt, Nat.compare_eq_lt]

end Component

namespace Path

theorem before_iff_lex {first second : Path} :
    first.Before second ↔ List.Lex Component.Precedes first.components second.components := by
  apply compareLex_map_eq_lt_iff Component.compare_key_eq_lt_iff
  intro a b
  exact (@Std.LawfulEqCmp.compare_eq_iff_eq _ (List.compareLex Ord.compare) _ _ _).trans
    Component.key_injective.eq_iff

theorem le_iff_lex {first second : Path} :
    first.le second = true ↔ first.components = second.components ∨
      List.Lex Component.Precedes first.components second.components := by
  rw [← same_iff, ← before_iff_lex, ← compare_eq_eq_iff, le, Before]
  cases first.compare second <;> simp

/-- What is in a directory comes right behind it, although as a character the slash comes
behind the hyphen. -/
example : (ofText "a/b".toList).Before (ofText "a-b".toList) := by
  decide

/-- Repeated slashes do not count. -/
example : (ofText "a//b".toList).same (ofText "a/b".toList) := by
  decide

end Path

end LineTally
