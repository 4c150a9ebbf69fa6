/-!
# Text

A text is a list of characters, so that it can be taken apart by recursion.
Widths are measured in bytes of UTF-8: `dropBytes?` moves past a given number of
bytes and refuses to stop inside a character.  Trimming a text and cutting it into
words go by the characters with the Unicode property `White_Space`.
-/

namespace LineTally

/-- A piece of text, character by character. -/
abbrev Text := List Char

namespace Text

/-- The number of bytes of the UTF-8 encoding. -/
def byteSize : Text → Nat
  | [] => 0
  | c :: rest => c.utf8Size + byteSize rest

@[simp]
theorem byteSize_nil : byteSize [] = 0 :=
  rfl

@[simp]
theorem byteSize_cons (c : Char) (rest : Text) :
    byteSize (c :: rest) = c.utf8Size + byteSize rest :=
  rfl

theorem byteSize_append (first second : Text) :
    byteSize (first ++ second) = byteSize first + byteSize second := by
  induction first with
  | nil => simp
  | cons c rest inductionHypothesis => simp [inductionHypothesis, Nat.add_assoc]

/-- The width of the first character in bytes. -/
def firstWidth : Text → Nat
  | [] => 0
  | c :: _ => c.utf8Size

/-- What is left after the first `width` bytes; `none` if there are fewer, or if
the cut would fall inside a character. -/
def dropBytes? : Nat → Text → Option Text
  | 0, text => some text
  | _ + 1, [] => none
  | width + 1, c :: rest =>
      if c.utf8Size ≤ width + 1 then dropBytes? (width + 1 - c.utf8Size) rest else none

@[simp]
theorem dropBytes?_zero (text : Text) : dropBytes? 0 text = some text := by
  cases text <;> rfl

/-- Dropping the bytes of a beginning leaves exactly what follows it. -/
theorem dropBytes?_append (first rest : Text) :
    dropBytes? (byteSize first) (first ++ rest) = some rest := by
  induction first with
  | nil => simp
  | cons c first inductionHypothesis =>
      have positive := c.utf8Size_pos
      obtain ⟨width, size⟩ : ∃ width, byteSize (c :: first) = width + 1 :=
        ⟨byteSize (c :: first) - 1, by simp; omega⟩
      rw [size, List.cons_append, dropBytes?, ← size]
      simp [inductionHypothesis]

/-- A positive width leaves a shorter text. -/
theorem length_lt_of_dropBytes? {width : Nat} {text rest : Text} (positive : 0 < width)
    (dropped : dropBytes? width text = some rest) : rest.length < text.length := by
  induction text generalizing width with
  | nil =>
      cases width with
      | zero => omega
      | succ width => simp [dropBytes?] at dropped
  | cons c text inductionHypothesis =>
      cases width with
      | zero => omega
      | succ width =>
          rw [dropBytes?] at dropped
          split at dropped
          · by_cases last : 0 < width + 1 - c.utf8Size
            · have := inductionHypothesis last dropped
              simp only [List.length_cons]
              omega
            · have none_left : width + 1 - c.utf8Size = 0 := by omega
              rw [none_left, dropBytes?_zero, Option.some.injEq] at dropped
              simp [← dropped]
          · simp at dropped

/-- Remove the longest ending all of whose characters satisfy `p`. -/
def dropEndWhile (p : Char → Bool) (text : Text) : Text :=
  (text.reverse.dropWhile p).reverse

/-- The decimal digits of a number, with no leading zero. -/
def ofNat (n : Nat) : Text :=
  Nat.toDigits 10 n

end Text

/-! ## Blank characters -/

/-- The Unicode property `White_Space`. -/
def isBlank (c : Char) : Bool :=
  let code := c.toNat
  (0x09 ≤ code && code ≤ 0x0D) || code == 0x20 || code == 0x85 || code == 0xA0 ||
    code == 0x1680 || (0x2000 ≤ code && code ≤ 0x200A) || code == 0x2028 ||
    code == 0x2029 || code == 0x202F || code == 0x205F || code == 0x3000

/-- Every white-space character of ASCII is blank. -/
theorem isBlank_of_isWhitespace {c : Char} (white : c.isWhitespace = true) :
    isBlank c = true := by
  simp only [Char.isWhitespace, Bool.or_eq_true, decide_eq_true_eq] at white
  rcases white with ((rfl | rfl) | rfl) | rfl <;> decide

namespace Text

/-- Whether every character is blank; the empty text is blank too. -/
def allBlank (text : Text) : Bool :=
  text.all isBlank

/-- Without the blank characters at both ends. -/
def trim (text : Text) : Text :=
  dropEndWhile isBlank (text.dropWhile isBlank)

/-- The longest pieces without a blank character, in order. -/
def words (text : Text) : List Text :=
  (text.splitOnP isBlank).filter (!·.isEmpty)

end Text

end LineTally
