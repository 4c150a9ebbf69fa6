import Mathlib.Tactic.SplitIfs
import LineTally.Text.Utf8

/-!
# The order of encoded texts

Texts are in the same order as their encodings: a text comes before another character by
character just if its bytes come before those of the other (`encode_lt_encode_iff`).  So
texts with the same bytes are the same.  Two characters differ in their bytes whatever
follows them, so a text begins another just if its bytes begin those of the other
(`encode_prefix_encode_iff`).
-/

namespace LineTally.Utf8

theorem toUInt8_lt_toUInt8 {m n : Nat} (first : m < 0x100) (second : n < 0x100) :
    m.toUInt8 < n.toUInt8 ↔ m < n := by
  simp [UInt8.lt_iff_toNat_lt, Nat.mod_eq_of_lt, first, second]

theorem toUInt8_eq_toUInt8 {m n : Nat} (first : m < 0x100) (second : n < 0x100) :
    m.toUInt8 = n.toUInt8 ↔ m = n := by
  simp [← UInt8.toNat_inj, Nat.mod_eq_of_lt, first, second]

theorem toNat_char_lt (c : Char) : c.toNat < 0x110000 := by
  rcases c.valid with below | ⟨-, above⟩
  · exact Nat.lt_trans below (by decide)
  · exact above

/-- The bytes of two different characters decide, whatever follows them. -/
theorem encodeChar_append_lt {c d : Char} (less : c < d) (first second : Bytes) :
    encodeChar c ++ first < encodeChar d ++ second := by
  have codes : c.toNat < d.toNat := less
  have limit := toNat_char_lt d
  simp only [encodeChar]
  generalize c.toNat = m at *
  generalize d.toNat = n at *
  -- More bytes start with a greater one; as many are digits of the number in base 64.
  split_ifs <;>
    simp (disch := omega) only [List.cons_append, List.nil_append, List.cons_lt_cons_iff,
      toUInt8_lt_toUInt8, toUInt8_eq_toUInt8] <;>
    omega

theorem encode_cons (c : Char) (rest : Text) : encode (c :: rest) = encodeChar c ++ encode rest :=
  rfl

theorem encodeChar_ne_nil (c : Char) : encodeChar c ≠ [] := by
  simp only [encodeChar]
  split_ifs <;> exact List.cons_ne_nil _ _

/-- Encoding keeps the order of texts. -/
theorem encode_lt_encode {first second : Text} (less : first < second) :
    encode first < encode second := by
  induction first generalizing second with
  | nil =>
      cases second with
      | nil => exact absurd less (List.not_lt_nil _)
      | cons d second =>
          obtain ⟨b, rest, bytes⟩ := List.exists_cons_of_ne_nil (encodeChar_ne_nil d)
          rw [encode_cons, bytes]
          exact List.Lex.nil
  | cons c first inductionHypothesis =>
      cases second with
      | nil => exact absurd less (List.not_lt_nil _)
      | cons d second =>
          rw [encode_cons, encode_cons]
          rcases List.cons_lt_cons_iff.mp less with smaller | ⟨rfl, onward⟩
          · exact encodeChar_append_lt smaller _ _
          · exact List.append_left_lt (inductionHypothesis onward)

theorem encode_lt_encode_iff {first second : Text} :
    encode first < encode second ↔ first < second := by
  refine ⟨fun less => ?_, encode_lt_encode⟩
  rcases Std.lt_trichotomy first second with before | rfl | after
  · exact before
  · exact absurd less Std.lt_irrefl
  · exact absurd (Std.lt_trans less (encode_lt_encode after)) Std.lt_irrefl

theorem encode_injective : Function.Injective encode := by
  intro first second same
  rcases Std.lt_trichotomy first second with before | equal | after
  · exact absurd same (Std.ne_of_lt (encode_lt_encode before))
  · exact equal
  · exact absurd same.symm (Std.ne_of_lt (encode_lt_encode after))

/-! ## Beginnings -/

theorem encode_append (first second : Text) :
    encode (first ++ second) = encode first ++ encode second :=
  List.flatMap_append

theorem encodeChar_append_inj {c d : Char} {first second : Bytes}
    (same : encodeChar c ++ first = encodeChar d ++ second) : c = d ∧ first = second := by
  rcases Std.lt_trichotomy c d with before | rfl | after
  · exact absurd same (Std.ne_of_lt (encodeChar_append_lt before first second))
  · exact ⟨rfl, List.append_cancel_left same⟩
  · exact absurd same.symm (Std.ne_of_lt (encodeChar_append_lt after second first))

theorem encode_prefix_encode_iff {first second : Text} :
    encode first <+: encode second ↔ first <+: second := by
  constructor
  · rintro ⟨more, stands⟩
    induction first generalizing second with
    | nil => exact List.nil_prefix
    | cons c first inductionHypothesis =>
        cases second with
        | nil =>
            rw [encode_cons, List.append_assoc] at stands
            exact absurd (List.append_eq_nil_iff.mp stands).1 (encodeChar_ne_nil c)
        | cons d second =>
            rw [encode_cons, encode_cons, List.append_assoc] at stands
            obtain ⟨rfl, behind⟩ := encodeChar_append_inj stands
            exact List.cons_prefix_cons.mpr ⟨rfl, inductionHypothesis behind⟩
  · rintro ⟨more, rfl⟩
    rw [encode_append]
    exact List.prefix_append _ _

/-! ## Widths -/

/-- The bytes are those of the library's encoding, whose first byte takes its part of the
number by a remainder. -/
theorem encodeChar_eq_utf8EncodeChar (c : Char) : encodeChar c = String.utf8EncodeChar c := by
  have limit := toNat_char_lt c
  have code : c.val.toNat = c.toNat := rfl
  simp only [encodeChar, String.utf8EncodeChar, code]
  generalize c.toNat = n at limit
  split_ifs <;>
    first
    | omega
    | simp (disch := omega) only [Nat.mod_eq_of_lt, Nat.toUInt8_eq, Nat.add_comm]

theorem length_encodeChar (c : Char) : (encodeChar c).length = c.utf8Size := by
  rw [encodeChar_eq_utf8EncodeChar, String.length_utf8EncodeChar]

theorem length_encode (text : Text) : (encode text).length = text.byteSize := by
  induction text with
  | nil => rfl
  | cons c rest inductionHypothesis =>
      rw [encode_cons, List.length_append, length_encodeChar, inductionHypothesis,
        Text.byteSize_cons]

end LineTally.Utf8
