import LineTally.Text.Basic

/-!
# Reading decimal numbers

A number that is written in decimal digits is read back.
-/

namespace LineTally.Text

/-- The number that a text of decimal digits stands for. -/
def toNat? (text : Text) : Option Nat :=
  if text ≠ [] ∧ text.all Char.isDigit then some (Nat.ofDigitChars 10 text 0) else none

theorem isDigit_of_mem_ofNat {n : Nat} {c : Char} (member : c ∈ ofNat n) : c.isDigit :=
  Nat.isDigit_of_mem_toDigits (by decide) (by decide) member

theorem ne_of_mem_ofNat {n : Nat} {c d : Char} (member : c ∈ ofNat n) (other : d.isDigit = false) :
    c ≠ d := by
  rintro rfl
  rw [isDigit_of_mem_ofNat member] at other
  contradiction

theorem not_mem_ofNat {d : Char} (other : d.isDigit = false) (n : Nat) : d ∉ ofNat n :=
  fun member => ne_of_mem_ofNat member other rfl

theorem all_isDigit_ofNat (n : Nat) : (ofNat n).all Char.isDigit = true :=
  List.all_eq_true.mpr fun _ => isDigit_of_mem_ofNat

@[simp]
theorem toNat?_ofNat (n : Nat) : (ofNat n).toNat? = some n := by
  rw [toNat?, if_pos ⟨Nat.toDigits_ne_nil, all_isDigit_ofNat n⟩, ofNat,
    Nat.ofDigitChars_ten_toDigits]

/-- No other number begins with a zero. -/
theorem eq_zero_of_head?_ofNat {n : Nat} (head : (ofNat n).head? = some '0') : n = 0 := by
  induction n using Nat.strongRecOn with
  | ind n inductionHypothesis =>
      by_cases oneDigit : n < 10
      · have each : ∀ digit < 10, Nat.digitChar digit = '0' → digit = 0 := by
          decide
        rw [ofNat, Nat.toDigits_of_lt_base oneDigit, List.head?_cons, Option.some.injEq] at head
        exact each n oneDigit head
      · obtain ⟨first, rest, digits⟩ := List.exists_cons_of_ne_nil
          (@Nat.toDigits_ne_nil (n / 10) 10)
        rw [ofNat, Nat.toDigits_of_base_le (by decide) (by omega), digits, List.cons_append,
          List.head?_cons, ← List.head?_cons, ← digits] at head
        have := inductionHypothesis (n / 10) (by omega) head
        omega

end LineTally.Text
