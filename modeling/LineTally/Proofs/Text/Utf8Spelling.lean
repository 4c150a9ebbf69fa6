import LineTally.Proofs.Text.Utf8Order

/-!
# Numbers of characters in bytes

`Spells n bytes` says how a number is written in one to four bytes, six bits in each byte
behind the first.  The bytes of a character are the only ones that spell its number
(`encodeChar_eq_iff`).

Inside a character the decoder knows the number read so far.  `State.Completes` says which
bytes bring a state to the end of its character, and with which number; a state is behind
the bytes `begun` if these are the ways on to a character that `begun` begins
(`State.IsBehind`).  Every first byte is a whole character, or begins none, or leads to a
state behind it (`lead_cases`).
-/

namespace LineTally.Utf8

/-! ## One number -/

/-- The number is written in these bytes. -/
inductive Spells (n : Nat) : Bytes → Prop where
  | one {b : UInt8} : n < 0x80 → b.toNat = n → Spells n [b]
  | two {b₀ b₁ : UInt8} : 0x80 ≤ n → n < 0x800 → b₀.toNat = 0xC0 + n / 0x40 →
      b₁.toNat = 0x80 + n % 0x40 → Spells n [b₀, b₁]
  | three {b₀ b₁ b₂ : UInt8} : 0x800 ≤ n → n < 0x10000 → b₀.toNat = 0xE0 + n / 0x1000 →
      b₁.toNat = 0x80 + n / 0x40 % 0x40 → b₂.toNat = 0x80 + n % 0x40 → Spells n [b₀, b₁, b₂]
  | four {b₀ b₁ b₂ b₃ : UInt8} : 0x10000 ≤ n → n < 0x110000 → b₀.toNat = 0xF0 + n / 0x40000 →
      b₁.toNat = 0x80 + n / 0x1000 % 0x40 → b₂.toNat = 0x80 + n / 0x40 % 0x40 →
      b₃.toNat = 0x80 + n % 0x40 → Spells n [b₀, b₁, b₂, b₃]

theorem Spells.unique {n : Nat} {first second : Bytes} (spells : Spells n first)
    (again : Spells n second) : first = second := by
  cases spells <;> cases again <;> try omega
  all_goals
    simp only [List.cons.injEq, ← UInt8.toNat_inj, and_true]
    omega

theorem spells_encodeChar (c : Char) : Spells c.toNat (encodeChar c) := by
  have limit := toNat_char_lt c
  simp only [encodeChar]
  generalize c.toNat = n at limit
  have byte {k : Nat} (small : k < 0x100) : k.toUInt8.toNat = k := UInt8.toNat_ofNat_of_lt' small
  have digit (k : Nat) : (0x80 + k % 0x40).toUInt8.toNat = 0x80 + k % 0x40 := byte (by omega)
  split_ifs with below below below
  · exact .one below (byte (by omega))
  · exact .two (by omega) below (byte (by omega)) (digit _)
  · exact .three (by omega) below (byte (by omega)) (digit _) (digit _)
  · exact .four (by omega) limit (byte (by omega)) (digit _) (digit _) (digit _)

theorem encodeChar_eq_iff {c : Char} {bytes : Bytes} :
    encodeChar c = bytes ↔ Spells c.toNat bytes := by
  constructor
  · rintro rfl
    exact spells_encodeChar c
  · exact (spells_encodeChar c).unique

theorem toNat_ofNat {n : Nat} (valid : n.isValidChar) : (Char.ofNat n).toNat = n := by
  rw [Char.ofNat, dif_pos valid]
  rfl

/-- The bytes of the character with this number. -/
theorem exists_char_iff {n : Nat} {bytes : Bytes} :
    (∃ c : Char, c.toNat = n ∧ encodeChar c = bytes) ↔ n.isValidChar ∧ Spells n bytes := by
  constructor
  · rintro ⟨c, rfl, written⟩
    exact ⟨c.valid, encodeChar_eq_iff.mp written⟩
  · rintro ⟨valid, spells⟩
    have number := toNat_ofNat valid
    exact ⟨Char.ofNat n, number, encodeChar_eq_iff.mpr (number.symm ▸ spells)⟩

/-- A byte below `0x80` stands only for itself. -/
theorem encodeChar_eq_singleton_of_mem {c : Char} {b : UInt8} (mem : b ∈ encodeChar c)
    (low : b.toNat < 0x80) : encodeChar c = [b] := by
  have spells := spells_encodeChar c
  generalize encodeChar c = bytes at mem spells
  cases spells with
  | one => rw [List.mem_singleton.mp mem]
  | two | three | four =>
      simp only [List.mem_cons, List.not_mem_nil, or_false] at mem
      rcases mem with rfl | rfl | rfl | rfl <;> omega

theorem low_of_encodeChar {c : Char} {b : UInt8} (alone : encodeChar c = [b]) :
    b.toNat < 0x80 := by
  cases encodeChar_eq_iff.mp alone with
  | one low same => exact same ▸ low

/-- A byte that is a whole character stands in the bytes of a text for that character. -/
theorem mem_encode_iff {c : Char} {b : UInt8} (alone : encodeChar c = [b]) {text : Text} :
    b ∈ encode text ↔ c ∈ text := by
  rw [encode, List.mem_flatMap]
  constructor
  · rintro ⟨d, member, within⟩
    have same : encodeChar d = encodeChar c :=
      (encodeChar_eq_singleton_of_mem within (low_of_encodeChar alone)).trans alone.symm
    obtain ⟨rfl, _⟩ := encodeChar_append_inj (congrArg (· ++ []) same)
    exact member
  · intro member
    exact ⟨c, member, alone ▸ List.mem_singleton_self b⟩

/-! ## The rest of a character -/

/-- These bytes complete the character begun, and this is its number. -/
inductive State.Completes : State → Bytes → Nat → Prop
  | last {low high b : UInt8} {code : Nat} : low ≤ b ∧ b ≤ high →
      Completes (.inside 0 low high code) [b] (code * 0x40 + (b.toNat - 0x80))
  | more {remaining : Nat} {low high b : UInt8} {code n : Nat} {tail : Bytes} :
      low ≤ b ∧ b ≤ high →
      Completes (.inside remaining 0x80 0xBF (code * 0x40 + (b.toNat - 0x80))) tail n →
      Completes (.inside (remaining + 1) low high code) (b :: tail) n

theorem continues_iff {b : UInt8} : 0x80 ≤ b ∧ b ≤ 0xBF ↔ 0x80 ≤ b.toNat ∧ b.toNat < 0xC0 := by
  simp only [UInt8.le_iff_toNat_le, UInt8.reduceToNat]
  omega

/-- Behind the first of two bytes. -/
theorem completes_two_iff {b : UInt8} {code n : Nat} {tail : Bytes} (first : b.toNat = 0xC0 + code)
    (above : 2 ≤ code) (below : code < 0x20) :
    State.Completes (.inside 0 0x80 0xBF code) tail n ↔ n.isValidChar ∧ Spells n (b :: tail) := by
  constructor
  · intro completes
    cases completes with
    | last inRange =>
        obtain ⟨above₁, below₁⟩ := continues_iff.mp inRange
        exact ⟨.inl (by omega), .two (by omega) (by omega) (by omega) (by omega)⟩
  · rintro ⟨-, spells⟩
    cases spells with
    | one => omega
    | three => omega
    | four => omega
    | @two _ b₁ =>
        have number : n = code * 0x40 + (b₁.toNat - 0x80) := by omega
        rw [number]
        exact .last (continues_iff.mpr (by omega))

/-- Behind the first of three bytes.  The range of the second keeps the number off overlong
forms and surrogates. -/
theorem completes_three_iff {b low high : UInt8} {code n : Nat} {tail : Bytes}
    (first : b.toNat = 0xE0 + code) (below : code < 0x10)
    (range : ∀ b₁ : UInt8, low ≤ b₁ ∧ b₁ ≤ high ↔ 0x80 ≤ b₁.toNat ∧ b₁.toNat < 0xC0 ∧
      (code = 0 → 0xA0 ≤ b₁.toNat) ∧ (code = 0xD → b₁.toNat < 0xA0)) :
    State.Completes (.inside 1 low high code) tail n ↔ n.isValidChar ∧ Spells n (b :: tail) := by
  constructor
  · intro completes
    cases completes with
    | @more _ _ _ b₁ _ _ _ inRange₁ completes =>
        cases completes with
        | last inRange₂ =>
            obtain ⟨above₁, below₁, overlong, surrogate⟩ := (range b₁).mp inRange₁
            obtain ⟨above₂, below₂⟩ := continues_iff.mp inRange₂
            refine ⟨?_, .three ?_ ?_ ?_ ?_ ?_⟩
            · rw [Nat.isValidChar]
              omega
            all_goals omega
  · rintro ⟨valid, spells⟩
    rw [Nat.isValidChar] at valid
    cases spells with
    | one => omega
    | two => omega
    | four => omega
    | @three _ b₁ b₂ =>
        have number : n = (code * 0x40 + (b₁.toNat - 0x80)) * 0x40 + (b₂.toNat - 0x80) := by omega
        rw [number]
        exact .more ((range b₁).mpr (by omega)) (.last (continues_iff.mpr (by omega)))

/-- Behind the first of four bytes.  The range of the second keeps the number off overlong
forms and below `0x110000`. -/
theorem completes_four_iff {b low high : UInt8} {code n : Nat} {tail : Bytes}
    (first : b.toNat = 0xF0 + code) (below : code < 5)
    (range : ∀ b₁ : UInt8, low ≤ b₁ ∧ b₁ ≤ high ↔ 0x80 ≤ b₁.toNat ∧ b₁.toNat < 0xC0 ∧
      (code = 0 → 0x90 ≤ b₁.toNat) ∧ (code = 4 → b₁.toNat < 0x90)) :
    State.Completes (.inside 2 low high code) tail n ↔ n.isValidChar ∧ Spells n (b :: tail) := by
  constructor
  · intro completes
    cases completes with
    | @more _ _ _ b₁ _ _ _ inRange₁ completes =>
        cases completes with
        | more inRange₂ completes =>
            cases completes with
            | last inRange₃ =>
                obtain ⟨above₁, below₁, overlong, excess⟩ := (range b₁).mp inRange₁
                obtain ⟨above₂, below₂⟩ := continues_iff.mp inRange₂
                obtain ⟨above₃, below₃⟩ := continues_iff.mp inRange₃
                refine ⟨.inr ?_, .four ?_ ?_ ?_ ?_ ?_ ?_⟩ <;> omega
  · rintro ⟨-, spells⟩
    cases spells with
    | one => omega
    | two => omega
    | three => omega
    | @four _ b₁ b₂ b₃ =>
        have number : n = ((code * 0x40 + (b₁.toNat - 0x80)) * 0x40 + (b₂.toNat - 0x80)) * 0x40 +
            (b₃.toNat - 0x80) := by
          omega
        rw [number]
        exact .more ((range b₁).mpr (by omega))
          (.more (continues_iff.mpr (by omega)) (.last (continues_iff.mpr (by omega))))

/-- The state waits for the rest of the characters that these bytes begin. -/
structure IsInside (begun : Bytes) (remaining : Nat) (low high : UInt8) (code : Nat) : Prop where
  ne_nil : begun ≠ []
  low_le_high : low ≤ high
  completes_iff (tail : Bytes) (n : Nat) :
    State.Completes (.inside remaining low high code) tail n ↔
      ∃ c : Char, c.toNat = n ∧ encodeChar c = begun ++ tail

namespace IsInside

variable {begun : Bytes} {remaining code : Nat} {low high : UInt8}

theorem of_first {b : UInt8} (nonempty : low ≤ high)
    (iff : ∀ (tail : Bytes) (n : Nat), State.Completes (.inside remaining low high code) tail n ↔
      n.isValidChar ∧ Spells n (b :: tail)) : IsInside [b] remaining low high code where
  ne_nil := List.cons_ne_nil _ _
  low_le_high := nonempty
  completes_iff tail n := (iff tail n).trans exists_char_iff.symm

/-- The last byte completes a character. -/
theorem encodeChar_eq (inside : IsInside begun 0 low high code) {b : UInt8}
    (inRange : low ≤ b ∧ b ≤ high) :
    encodeChar (Char.ofNat (code * 0x40 + (b.toNat - 0x80))) = begun ++ [b] := by
  obtain ⟨c, number, written⟩ := (inside.completes_iff _ _).mp (.last inRange)
  rw [← number, Char.ofNat_toNat, written]

/-- Any other byte leads on. -/
theorem concat (inside : IsInside begun (remaining + 1) low high code) {b : UInt8}
    (inRange : low ≤ b ∧ b ≤ high) :
    IsInside (begun ++ [b]) remaining 0x80 0xBF (code * 0x40 + (b.toNat - 0x80)) where
  ne_nil := List.append_ne_nil_of_right_ne_nil _ (List.cons_ne_nil _ _)
  low_le_high := by decide
  completes_iff tail n := by
    rw [List.append_assoc, ← inside.completes_iff]
    constructor
    · exact .more inRange
    · rintro (_ | ⟨-, completes⟩)
      exact completes

/-- Only a byte in the range goes on with a character. -/
theorem inRange_of_prefix (inside : IsInside begun remaining low high code) {b : UInt8} {c : Char}
    (goesOn : begun ++ [b] <+: encodeChar c) : low ≤ b ∧ b ≤ high := by
  obtain ⟨tail, written⟩ := goesOn
  rw [List.append_assoc] at written
  have completes := (inside.completes_iff _ _).mpr ⟨c, rfl, written.symm⟩
  generalize c.toNat = n at completes
  cases completes with
  | last inRange => exact inRange
  | more inRange => exact inRange

end IsInside

theorem State.exists_completes (remaining : Nat) {low high : UInt8} (nonempty : low ≤ high)
    (code : Nat) : ∃ tail n, Completes (.inside remaining low high code) tail n := by
  induction remaining generalizing low high code with
  | zero => exact ⟨_, _, .last ⟨Std.le_refl low, nonempty⟩⟩
  | succ remaining inductionHypothesis =>
      obtain ⟨tail, n, completes⟩ :=
        inductionHypothesis (by decide : (0x80 : UInt8) ≤ 0xBF) (code * 0x40 + (low.toNat - 0x80))
      exact ⟨_, _, .more ⟨Std.le_refl low, nonempty⟩ completes⟩

theorem State.Completes.ne_nil {state : State} {tail : Bytes} {n : Nat}
    (completes : state.Completes tail n) : tail ≠ [] := by
  cases completes <;> exact List.cons_ne_nil _ _

/-- Some character begins with the bytes, and is not yet complete. -/
theorem IsInside.exists_char {begun : Bytes} {remaining code : Nat} {low high : UInt8}
    (inside : IsInside begun remaining low high code) :
    ∃ (c : Char) (tail : Bytes), tail ≠ [] ∧ encodeChar c = begun ++ tail := by
  obtain ⟨tail, n, completes⟩ := State.exists_completes remaining inside.low_le_high code
  obtain ⟨c, -, written⟩ := (inside.completes_iff tail n).mp completes
  exact ⟨c, tail, completes.ne_nil, written⟩

/-- A first byte is a character, or begins none, or begins some. -/
theorem lead_cases (b : UInt8) :
    (∃ c, lead b = ([c], .start) ∧ encodeChar c = [b]) ∨
      (lead b = ([replacement], .start) ∧ ∀ c tail, encodeChar c ≠ b :: tail) ∨
      ∃ remaining low high code, lead b = ([], .inside remaining low high code) ∧
        IsInside [b] remaining low high code := by
  have none (outside : 0x80 ≤ b.toNat ∧ b.toNat < 0xC2 ∨ 0xF5 ≤ b.toNat) (c : Char) (tail : Bytes) :
      encodeChar c ≠ b :: tail := by
    rw [Ne, encodeChar_eq_iff]
    intro spells
    cases spells <;> omega
  fun_cases lead b
  all_goals
    simp only [UInt8.lt_iff_toNat_lt, beq_iff_eq, ← UInt8.toNat_inj, UInt8.reduceToNat] at *
  · refine .inl ⟨_, rfl, encodeChar_eq_iff.mpr ?_⟩
    rw [toNat_ofNat (.inl (by omega))]
    exact .one (by omega) rfl
  · exact .inr (.inl ⟨trivial, none (by omega)⟩)
  · refine .inr (.inr ⟨_, _, _, _, rfl, .of_first (by decide) fun tail n => ?_⟩)
    exact completes_two_iff (by omega) (by omega) (by omega)
  -- The first of three bytes; behind `0xE0` and `0xED` the range of the second is narrower.
  iterate 3
    · refine .inr (.inr ⟨_, _, _, _, rfl, .of_first (by decide) fun tail n => ?_⟩)
      refine completes_three_iff (by omega) (by omega) fun b₁ => ?_
      simp only [UInt8.le_iff_toNat_le, UInt8.reduceToNat, forall_const]
      omega
  -- The first of four bytes; it is narrower behind `0xF0` and `0xF4`.
  iterate 3
    · refine .inr (.inr ⟨_, _, _, _, rfl, .of_first (by decide) fun tail n => ?_⟩)
      refine completes_four_iff (by omega) (by omega) fun b₁ => ?_
      simp only [UInt8.le_iff_toNat_le, UInt8.reduceToNat, forall_const]
      omega
  · exact .inr (.inl ⟨trivial, none (by omega)⟩)

end LineTally.Utf8
