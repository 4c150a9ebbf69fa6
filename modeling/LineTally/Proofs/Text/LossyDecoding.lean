import LineTally.Proofs.Text.Utf8Spelling

/-!
# Decoding bytes that need not be well formed

What the decoder writes, said without its states.  Where a character stands, it is taken;
where none stands, the longest sequence of bytes that begins one, or a single byte that
begins none, is replaced (`MaximalSubpart`).  `Decodes bytes text` reads bytes in this way
from their start to their end.  There is exactly one way to read them, and `decode` finds it
(`decodes_iff`).
-/

namespace LineTally.Utf8

/-- The bytes begin a character, or are a whole one. -/
def BeginsChar (bytes : Bytes) : Prop :=
  ∃ c, bytes <+: encodeChar c

/-- The bytes that are replaced where no character stands: as many as still begin a
character, or the first alone if that begins none. -/
structure MaximalSubpart (part bytes : Bytes) : Prop where
  malformed (c : Char) : ¬ encodeChar c <+: bytes
  stands : part <+: bytes
  ne_nil : part ≠ []
  begins : BeginsChar part ∨ part.length = 1
  maximal {longer : Bytes} : longer <+: bytes → BeginsChar longer → longer.length ≤ part.length

/-- The text that bytes stand for, with a replacement for each malformed part. -/
inductive Decodes : Bytes → Text → Prop where
  | nil : Decodes [] []
  | char (c : Char) {rest : Bytes} {text : Text} :
      Decodes rest text → Decodes (encodeChar c ++ rest) (c :: text)
  | malformed {part rest : Bytes} {text : Text} :
      MaximalSubpart part (part ++ rest) → Decodes rest text →
      Decodes (part ++ rest) (replacement :: text)

/-! ## One way to read -/

theorem MaximalSubpart.unique {first second bytes : Bytes} (part : MaximalSubpart first bytes)
    (again : MaximalSubpart second bytes) : first = second := by
  have length_le {one other : Bytes} (part : MaximalSubpart one bytes)
      (again : MaximalSubpart other bytes) : one.length ≤ other.length := by
    rcases part.begins with begins | single
    · exact again.maximal part.stands begins
    · rw [single]
      exact List.length_pos_iff.mpr again.ne_nil
  have begins := List.prefix_of_prefix_length_le part.stands again.stands (length_le part again)
  exact begins.eq_of_length_le (length_le again part)

theorem Decodes.eq_nil_iff {bytes : Bytes} {text : Text} (decodes : Decodes bytes text) :
    bytes = [] ↔ text = [] := by
  cases decodes with
  | nil => exact iff_of_true rfl rfl
  | char c => simp [encodeChar_ne_nil]
  | malformed part => simp [part.ne_nil]

theorem Decodes.unique {bytes : Bytes} {first second : Text} (decodes : Decodes bytes first)
    (again : Decodes bytes second) : first = second := by
  induction decodes generalizing second with
  | nil => exact (again.eq_nil_iff.mp rfl).symm
  | @char c rest text _ inductionHypothesis =>
      generalize same : encodeChar c ++ rest = bytes at again
      cases again with
      | nil => exact absurd (List.append_eq_nil_iff.mp same).1 (encodeChar_ne_nil c)
      | char d onward =>
          obtain ⟨rfl, rfl⟩ := encodeChar_append_inj same
          rw [inductionHypothesis onward]
      | malformed part => exact absurd (same ▸ List.prefix_append _ _) (part.malformed c)
  | @malformed begun rest text part _ inductionHypothesis =>
      generalize same : begun ++ rest = bytes at again part
      cases again with
      | nil => exact absurd (List.append_eq_nil_iff.mp same).1 part.ne_nil
      | char d => exact absurd (List.prefix_append _ _) (part.malformed d)
      | malformed other onward =>
          obtain rfl := part.unique other
          obtain rfl := List.append_cancel_left same
          rw [inductionHypothesis onward]

/-! ## The decoder finds it -/

/-- A byte that begins no character is replaced by itself. -/
theorem maximalSubpart_singleton {b : UInt8} (none : ∀ c tail, encodeChar c ≠ b :: tail)
    (rest : Bytes) : MaximalSubpart [b] (b :: rest) where
  malformed c := by
    intro stands
    obtain ⟨d, tail, written⟩ := List.exists_cons_of_ne_nil (encodeChar_ne_nil c)
    rw [written, List.cons_prefix_cons] at stands
    exact none c tail (stands.1 ▸ written)
  stands := List.prefix_append [b] rest
  ne_nil := List.cons_ne_nil _ _
  begins := .inr rfl
  maximal := by
    rintro (_ | ⟨d, longer⟩) stands ⟨c, begins⟩
    · exact Nat.zero_le _
    · obtain ⟨tail, written⟩ := begins
      obtain ⟨rfl, -⟩ := List.cons_prefix_cons.mp stands
      exact absurd written.symm (none c _)

theorem prefix_or_concat_prefix {first rest longer : Bytes} (stands : longer <+: first ++ rest) :
    longer <+: first ∨ ∃ b ∈ rest.head?, first ++ [b] <+: longer := by
  rcases List.prefix_or_prefix_of_prefix stands (List.prefix_append first rest) with
    within | ⟨beyond, rfl⟩
  · exact .inl within
  · cases beyond with
    | nil =>
        rw [List.append_nil]
        exact .inl List.prefix_rfl
    | cons b beyond =>
        obtain ⟨others, rfl⟩ := (List.prefix_append_right_inj first).mp stands
        have next : [b] <+: b :: beyond := List.prefix_append [b] beyond
        exact .inr ⟨b, rfl, (List.prefix_append_right_inj first).mpr next⟩

/-- The bytes read so far are replaced if what follows does not go on with a character. -/
theorem IsInside.maximalSubpart {begun rest : Bytes} {remaining code : Nat} {low high : UInt8}
    (inside : IsInside begun remaining low high code)
    (stuck : ∀ b ∈ rest.head?, ¬ (low ≤ b ∧ b ≤ high)) : MaximalSubpart begun (begun ++ rest) := by
  obtain ⟨d, tail, unfinished, written⟩ := inside.exists_char
  have within {longer : Bytes} (stands : longer <+: begun ++ rest) :
      BeginsChar longer → longer <+: begun := by
    rintro ⟨c, begins⟩
    rcases prefix_or_concat_prefix stands with within | ⟨b, next, onward⟩
    · exact within
    · exact absurd (inside.inRange_of_prefix (onward.trans begins)) (stuck b next)
  constructor
  case malformed =>
    intro c stands
    obtain ⟨more, rfl⟩ := within stands ⟨c, List.prefix_rfl⟩
    rw [List.append_assoc, ← List.append_nil (encodeChar d)] at written
    exact unfinished (List.append_eq_nil_iff.mp (encodeChar_append_inj written).2.symm).2
  case stands => exact List.prefix_append begun rest
  case ne_nil => exact inside.ne_nil
  case begins => exact .inl ⟨d, tail, written.symm⟩
  case maximal => exact fun stands begins => (within stands begins).length_le

section Step

variable {remaining code : Nat} {low high b : UInt8}

theorem step_last (inRange : low ≤ b ∧ b ≤ high) :
    step (.inside 0 low high code) b = ([Char.ofNat (code * 0x40 + (b.toNat - 0x80))], .start) := by
  simp [step, inRange]

theorem step_more (inRange : low ≤ b ∧ b ≤ high) :
    step (.inside (remaining + 1) low high code) b =
      ([], .inside remaining 0x80 0xBF (code * 0x40 + (b.toNat - 0x80))) := by
  simp [step, inRange]

theorem step_stuck (stuck : ¬ (low ≤ b ∧ b ≤ high)) :
    step (.inside remaining low high code) b = (replacement :: (lead b).1, (lead b).2) := by
  simp [step, stuck]

end Step

/-- The bytes read of the character at which the decoder stands. -/
def State.IsBehind (begun : Bytes) : State → Prop
  | .start => begun = []
  | .inside remaining low high code => IsInside begun remaining low high code

/-- One first byte, if what is decoded behind it is right from any state. -/
theorem decodes_lead {rest : Bytes}
    (onward : ∀ (begun : Bytes) (state : State), state.IsBehind begun →
      Decodes (begun ++ rest) (decodeFrom state rest)) (b : UInt8) :
    Decodes (b :: rest) ((lead b).1 ++ decodeFrom (lead b).2 rest) := by
  rcases lead_cases b with ⟨c, leads, written⟩ | ⟨leads, none⟩ | ⟨_, _, _, _, leads, inside⟩
  · rw [leads, ← List.singleton_append, ← written]
    exact .char c (onward [] .start rfl)
  · rw [leads]
    exact .malformed (maximalSubpart_singleton none rest) (onward [] .start rfl)
  · rw [leads]
    exact onward [b] _ inside

theorem decodes_decodeFrom (begun : Bytes) (state : State) (behind : state.IsBehind begun)
    (bytes : Bytes) : Decodes (begun ++ bytes) (decodeFrom state bytes) := by
  induction bytes generalizing begun state with
  | nil =>
      cases state with
      | start =>
          rw [show begun = [] from behind]
          exact .nil
      | inside remaining low high code => exact .malformed (behind.maximalSubpart (by simp)) .nil
  | cons b rest inductionHypothesis =>
      cases state with
      | start =>
          rw [show begun = [] from behind]
          exact decodes_lead inductionHypothesis b
      | inside remaining low high code =>
          rw [decodeFrom]
          by_cases inRange : low ≤ b ∧ b ≤ high
          · have onward : begun ++ b :: rest = begun ++ [b] ++ rest := by simp
            rw [onward]
            cases remaining with
            | zero =>
                rw [step_last inRange, ← behind.encodeChar_eq inRange]
                exact .char _ (inductionHypothesis [] .start rfl)
            | succ remaining =>
                rw [step_more inRange]
                exact inductionHypothesis _ _ (behind.concat inRange)
          · rw [step_stuck inRange]
            have stuck : ∀ next ∈ (b :: rest).head?, ¬ (low ≤ next ∧ next ≤ high) := by
              simpa using inRange
            exact .malformed (behind.maximalSubpart stuck) (decodes_lead inductionHypothesis b)

theorem decodes_decode (bytes : Bytes) : Decodes bytes (decode bytes) := by
  rw [decode_eq_decodeFrom]
  exact decodes_decodeFrom [] .start rfl bytes

/-- The decoder reads bytes in the one way there is. -/
theorem decodes_iff {bytes : Bytes} {text : Text} : Decodes bytes text ↔ text = decode bytes := by
  constructor
  · exact fun decodes => decodes.unique (decodes_decode bytes)
  · rintro rfl
    exact decodes_decode bytes

theorem decodes_encode (text : Text) : Decodes (encode text) text := by
  induction text with
  | nil => exact .nil
  | cons c rest inductionHypothesis => exact .char c inductionHypothesis

/-- Well-formed bytes are decoded to the text that they encode. -/
theorem decode_encode (text : Text) : decode (encode text) = text :=
  (decodes_iff.mp (decodes_encode text)).symm

theorem decode?_encode (text : Text) : decode? (encode text) = some text := by
  rw [decode?, decode_encode]
  exact if_pos rfl

/-- The bytes that are accepted are those of a text. -/
theorem decode?_eq_some_iff {bytes : Bytes} {text : Text} :
    decode? bytes = some text ↔ bytes = encode text := by
  constructor
  · intro decoded
    simp only [decode?, Option.ite_none_right_eq_some, Option.some.injEq] at decoded
    rw [← decoded.2, decoded.1]
  · rintro rfl
    exact decode?_encode text

end LineTally.Utf8
