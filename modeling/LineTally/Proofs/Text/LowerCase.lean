import LineTally.Language.Detection

/-!
# Lower case

Texts that differ in the case of letters of ASCII alone are the same in lower case
(`SameLetters.lower_eq`).

Unicode writes some characters in lower case that `Text.lower` leaves alone, one of them even as two
characters.  `Lowers` covers all that may come out, and as far as spellings in ASCII go, it makes
no difference which of them is taken (`Lowers.eq_iff`, `Lowers.prefix_iff`).
-/

namespace LineTally

/-- Only the capital letters of ASCII have another form. -/
theorem toNat_toLower (c : Char) :
    c.toLower.toNat = if 65 ≤ c.toNat ∧ c.toNat ≤ 90 then c.toNat + 32 else c.toNat := by
  by_cases capital : c.val ≥ 'A'.val ∧ c.val ≤ 'Z'.val
  · have bounds : 65 ≤ c.toNat ∧ c.toNat ≤ 90 := capital
    have shift : ('a'.val - 'A'.val).toNat = 32 := rfl
    have lowered : c.toLower.val = c.val + ('a'.val - 'A'.val) :=
      congrArg Char.val (dif_pos capital)
    rw [if_pos bounds, Char.toNat, lowered, UInt32.toNat_add, shift]
    exact Nat.mod_eq_of_lt (Nat.lt_of_le_of_lt (Nat.add_le_add_right bounds.2 32) (by decide))
  · have others : ¬ (65 ≤ c.toNat ∧ c.toNat ≤ 90) := capital
    have kept : c.toLower = c := dif_neg capital
    rw [if_neg others, kept]

theorem toLower_eq_self {c : Char} (high : 0x80 ≤ c.toNat) : c.toLower = c := by
  apply Char.toNat_inj.mp
  rw [toNat_toLower, if_neg (by omega)]

/-- A mark that comes before the letters is the lower case of nothing else. -/
theorem toLower_eq_iff {c mark : Char} (low : mark.toNat < 65) : c.toLower = mark ↔ c = mark := by
  rw [← Char.toNat_inj, ← Char.toNat_inj, toNat_toLower]
  split <;> omega

theorem lowerChar_toLower (c : Char) : lowerChar c.toLower = lowerChar c := by
  by_cases high : 0x80 ≤ c.toNat
  · rw [toLower_eq_self high]
  · have other (d : Char) (low : d.toNat < 0x80) : d ≠ '\u212A' := by
      rintro rfl
      exact absurd low (by decide)
    have codes := toNat_toLower c
    have codesTwice := toNat_toLower c.toLower
    have same : c.toLower.toLower = c.toLower := by
      apply Char.toNat_inj.mp
      split at codes <;> split at codesTwice <;> omega
    have low : c.toLower.toNat < 0x80 := by
      split at codes <;> omega
    rw [lowerChar, lowerChar, if_neg (other _ low), if_neg (other c (by omega)), same]

/-- The texts differ at most in the case of letters of ASCII. -/
def SameLetters (first second : Text) : Prop :=
  first.map Char.toLower = second.map Char.toLower

instance (first second : Text) : Decidable (SameLetters first second) :=
  inferInstanceAs (Decidable (_ = _))

namespace SameLetters

variable {first second : Text}

theorem symm (same : SameLetters first second) : SameLetters second first :=
  Eq.symm same

theorem lower_eq (same : SameLetters first second) : Text.lower first = Text.lower second := by
  have once (text : Text) : Text.lower (text.map Char.toLower) = Text.lower text := by
    rw [Text.lower, Text.lower, List.map_map]
    exact List.map_congr_left fun c _ => lowerChar_toLower c
  rw [← once first, ← once second, same]

theorem mem_iff (same : SameLetters first second) {mark : Char} (low : mark.toNat < 65) :
    mark ∈ first ↔ mark ∈ second := by
  have kept (text : Text) : mark ∈ text ↔ mark ∈ text.map Char.toLower := by
    simp only [List.mem_map, toLower_eq_iff low, exists_eq_right]
  rw [kept first, kept second, same]

/-- A mark that is no letter cuts both texts in the same place. -/
theorem exists_cut {mark : Char} {before behind : Text} (low : mark.toNat < 65)
    (same : SameLetters (before ++ mark :: behind) second) :
    ∃ before' behind', second = before' ++ mark :: behind' ∧ SameLetters before before' ∧
      SameLetters behind behind' := by
  have whole : second.map Char.toLower =
      before.map Char.toLower ++ mark :: behind.map Char.toLower := by
    rw [← same, List.map_append, List.map_cons, (toLower_eq_iff low).mpr rfl]
  obtain ⟨before', later, rfl, first', later'⟩ := List.map_eq_append_iff.mp whole
  obtain ⟨c, behind', rfl, isMark, last'⟩ := List.map_eq_cons_iff.mp later'
  obtain rfl := (toLower_eq_iff low).mp isMark
  exact ⟨before', behind', rfl, first'.symm, last'.symm⟩

end SameLetters

/-! ## Unicode -/

/-- What Unicode may write for a character in lower case.  Of the characters outside of ASCII only
the Kelvin sign becomes one of ASCII, and the capital I with a dot becomes one with a mark behind
it, or stays outside, too. -/
inductive LowerForm : Char → Text → Prop where
  | ascii {c : Char} : c.toNat < 0x80 → LowerForm c [c.toLower]
  | kelvin : LowerForm '\u212A' ['k']
  | dotted : LowerForm '\u0130' ['i', '\u0307']
  | other {c d : Char} : c ≠ '\u212A' → 0x80 ≤ c.toNat → 0x80 ≤ d.toNat → LowerForm c [d]

/-- A text and what Unicode may write for it in lower case. -/
inductive Lowers : Text → Text → Prop where
  | nil : Lowers [] []
  | cons {c : Char} {form text lowered : Text} :
      LowerForm c form → Lowers text lowered → Lowers (c :: text) (form ++ lowered)

/-- The form of a character is that of `Text.lower`, or it ends outside of ASCII, as the character
itself is left there by `Text.lower`. -/
theorem LowerForm.eq_or_high {c : Char} {form : Text} (written : LowerForm c form) :
    form = [lowerChar c] ∨
      0x80 ≤ (lowerChar c).toNat ∧ ∃ d, 0x80 ≤ d.toNat ∧ (form = [d] ∨ form = ['i', d]) := by
  cases written with
  | ascii low =>
      left
      rw [lowerChar, if_neg]
      rintro rfl
      exact absurd low (by decide)
  | kelvin =>
      left
      rfl
  | dotted =>
      right
      exact ⟨by decide, '\u0307', by decide, .inr rfl⟩
  | other notKelvin high formHigh =>
      right
      refine ⟨?_, _, formHigh, .inl rfl⟩
      rwa [lowerChar, if_neg notKelvin, toLower_eq_self high]

/-- All characters are in ASCII. -/
def Text.IsAscii (text : Text) : Prop :=
  ∀ c ∈ text, c.toNat < 0x80

instance (text : Text) : Decidable text.IsAscii :=
  decidable_of_iff (text.all (·.toNat < 0x80) = true) (by simp [Text.IsAscii])

namespace Lowers

variable {text lowered spelling : Text}

theorem lower (text : Text) : Lowers text (Text.lower text) := by
  induction text with
  | nil => exact .nil
  | cons c text inductionHypothesis =>
      have written : LowerForm c [lowerChar c] := by
        rw [lowerChar]
        split
        · next kelvin => exact kelvin ▸ .kelvin
        · next notKelvin =>
            by_cases low : c.toNat < 0x80
            · exact .ascii low
            · have high : 0x80 ≤ c.toNat := Nat.le_of_not_lt low
              rw [toLower_eq_self high]
              exact .other notKelvin high high
      exact .cons written inductionHypothesis

theorem eq_iff (lowers : Lowers text lowered) (ascii : spelling.IsAscii) :
    lowered = spelling ↔ Text.lower text = spelling := by
  induction lowers generalizing spelling with
  | nil => exact Iff.rfl
  | @cons c form text lowered written _ inductionHypothesis =>
      rw [Text.lower, List.map_cons]
      rcases written.eq_or_high with rfl | ⟨high, d, formHigh, form'⟩
      · cases spelling with
        | nil => simp
        | cons s spelling =>
            have tail := inductionHypothesis (List.forall_mem_cons.mp ascii).2
            rw [List.singleton_append, List.cons.injEq, List.cons.injEq, tail, Text.lower]
      · constructor
        · rintro rfl
          have low : d.toNat < 0x80 := ascii d (by rcases form' with rfl | rfl <;> simp)
          omega
        · rintro rfl
          have low := ascii _ List.mem_cons_self
          omega

theorem prefix_iff (lowers : Lowers text lowered) (ascii : spelling.IsAscii)
    (last : spelling.getLast? ≠ some 'i') :
    spelling <+: lowered ↔ spelling <+: Text.lower text := by
  induction lowers generalizing spelling with
  | nil => exact Iff.rfl
  | @cons c form text lowered written _ inductionHypothesis =>
      rw [Text.lower, List.map_cons]
      cases spelling with
      | nil => simp
      | cons s spelling =>
          obtain ⟨low, tail⟩ := List.forall_mem_cons.mp ascii
          rcases written.eq_or_high with rfl | ⟨high, d, formHigh, form'⟩
          · have goesOn : spelling.getLast? ≠ some 'i' := by
              intro ends
              rw [List.getLast?_cons, ends] at last
              exact last rfl
            rw [List.singleton_append, List.cons_prefix_cons, List.cons_prefix_cons,
              inductionHypothesis tail goesOn, Text.lower]
          · have notHere : ¬ s :: spelling <+: lowerChar c :: text.map lowerChar := by
              intro stands
              obtain ⟨rfl, _⟩ := List.cons_prefix_cons.mp stands
              omega
            refine iff_of_false ?_ notHere
            intro stands
            rcases form' with rfl | rfl
            · obtain ⟨rfl, _⟩ := List.cons_prefix_cons.mp stands
              omega
            · obtain ⟨rfl, behind⟩ := List.cons_prefix_cons.mp stands
              cases spelling with
              | nil => exact last rfl
              | cons t spelling =>
                  obtain ⟨rfl, _⟩ := List.cons_prefix_cons.mp behind
                  have := tail t List.mem_cons_self
                  omega

end Lowers

end LineTally
