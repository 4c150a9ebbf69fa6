import LineTally.Proofs.Report.JsonValue
import LineTally.Report.Json
import Mathlib.Data.List.TakeWhile
import Mathlib.Tactic.SplitIfs

/-!
# Reading JSON

The reader takes a JSON text apart character by character and knows nothing of how it was
written.  Blank characters outside of strings do not count.  A string ends at the first double
quote that is not escaped, and has no control characters; every other run of characters up to a
blank, a double quote or a punctuation mark is a number or one of three names.  A value is read
back from its text, whatever its names are (`read_write`).
-/

namespace LineTally.Report.Json

/-! ## Numbers and names -/

/-- What is before the first such character, and what is behind it if there is one. -/
def cutAt (p : Char → Bool) (text : Text) : Text × Option Text :=
  (text.takeWhile (!p ·), (text.dropWhile (!p ·)).tail?)

/-- The number of a text of decimal digits that may have a sign. -/
def signed? (text : Text) : Option Int :=
  if text.head? = some '-' then (Text.toNat? text.tail).map (-Int.ofNat ·)
  else if text.head? = some '+' then (Text.toNat? text.tail).map Int.ofNat
  else (Text.toNat? text).map Int.ofNat

/-- The number of a text without a sign that may have a point and a power of ten, as a
significand and the power.  Digits stand on both sides of the point, and a zero begins no other
digits. -/
def unsigned? (text : Text) : Option (Nat × Int) := do
  let (digits, power?) := cutAt (fun c => c = 'e' || c = 'E') text
  let (whole, decimals?) := cutAt (· = '.') digits
  let decimals := decimals?.getD []
  if whole = [] ∨ decimals? = some [] ∨ (whole.head? = some '0' ∧ whole ≠ ['0']) then none
  else
    let significand ← Text.toNat? (whole ++ decimals)
    let power ← power?.elim (some 0) signed?
    return (significand, power - decimals.length)

/-- The value that a run of characters stands for. -/
def scalar? (word : Text) : Option Scalar :=
  if word = "null".toList then some .null
  else if word = "true".toList then some (.bool true)
  else if word = "false".toList then some (.bool false)
  else if word.head? = some '-' then
    (unsigned? word.tail).map fun number => .number (-number.1) number.2
  else (unsigned? word).map fun number => .number number.1 number.2

/-! ## Characters -/

/-- Blank characters between tokens. -/
def isSpace (c : Char) : Bool :=
  c = ' ' || c = '\t' || c = '\n' || c = '\r'

/-- The token of a punctuation mark. -/
def punctuation? : Char → Option Token
  | '[' => some .openArray
  | ']' => some .closeArray
  | '\x7b' => some .openObject
  | '\x7d' => some .closeObject
  | ':' => some .colon
  | ',' => some .comma
  | _ => none

/-- What stands for itself behind a backslash, or for a control character. -/
def escaped? : Char → Option Char
  | '"' => some '"'
  | '\\' => some '\\'
  | '/' => some '/'
  | 'b' => some '\x08'
  | 'f' => some '\x0c'
  | 'n' => some '\n'
  | 'r' => some '\r'
  | 't' => some '\t'
  | _ => none

/-- The value of a hexadecimal digit. -/
def hexValue? (c : Char) : Option Nat :=
  if '0' ≤ c ∧ c ≤ '9' then some (c.toNat - '0'.toNat)
  else if 'a' ≤ c ∧ c ≤ 'f' then some (c.toNat - 'a'.toNat + 10)
  else if 'A' ≤ c ∧ c ≤ 'F' then some (c.toNat - 'A'.toNat + 10)
  else none

/-- Where the reader stands between two characters. -/
inductive Position where
  /-- Outside of strings, behind these characters of a word. -/
  | outside (word : Text)
  /-- In a string, behind these characters of it. -/
  | inside (text : Text)
  /-- Behind a backslash in a string; the escape before it may be the first half of a character. -/
  | escape (text : Text) (half : Option Nat)
  /-- In an escape by number, with this many digits to come behind the next one. -/
  | code (text : Text) (half : Option Nat) (left value : Nat)
  /-- Behind the first half of a character. -/
  | between (text : Text) (half : Nat)
deriving DecidableEq, Repr

/-- What the reader has read so far. -/
structure Reader where
  position : Position := .outside []
  builder : Builder := {}

/-- The position behind an escape by number.  Characters above U+FFFF are written in two halves. -/
def Position.ofCode (text : Text) (half : Option Nat) (value : Nat) : Option Position :=
  match half with
  | none =>
      if 0xD800 ≤ value ∧ value < 0xDC00 then some (.between text value)
      else if 0xDC00 ≤ value ∧ value < 0xE000 then none
      else some (.inside (text ++ [Char.ofNat value]))
  | some high =>
      if 0xDC00 ≤ value ∧ value < 0xE000 then
        some (.inside (text ++
          [Char.ofNat (0x10000 + (high - 0xD800) * 0x400 + (value - 0xDC00))]))
      else none

/-- The position behind a character in a string that goes on. -/
def Position.next (c : Char) : Position → Option Position
  | .outside _ => none
  | .inside text =>
      if c = '\\' then some (.escape text none)
      else if c.toNat < 0x20 then none
      else some (.inside (text ++ [c]))
  | .escape text half =>
      if c = 'u' then some (.code text half 3 0)
      else if half = none then (escaped? c).map fun character => .inside (text ++ [character])
      else none
  | .code text half left value => do
      let value := value * 16 + (← hexValue? c)
      match left with
      | 0 => ofCode text half value
      | left + 1 => some (.code text half left value)
  | .between text half => if c = '\\' then some (.escape text (some half)) else none

namespace Reader

/-- The builder behind the word that has been read, if any. -/
def settle (word : Text) (builder : Builder) : Option Builder :=
  if word = [] then some builder
  else (scalar? word).bind fun scalar => builder.next (.scalar scalar)

/-- Whether a character ends a word. -/
def endsWord (c : Char) : Bool :=
  isSpace c || c = '"' || (punctuation? c).isSome

/-- The effect of one character. -/
def next (reader : Reader) (c : Char) : Option Reader :=
  match reader.position with
  | .outside word =>
      if endsWord c then do
        let builder ← settle word reader.builder
        if c = '"' then some ⟨.inside [], builder⟩
        else
          match punctuation? c with
          | some token => (builder.next token).map fun builder => ⟨.outside [], builder⟩
          | none => some ⟨.outside [], builder⟩
      else some ⟨.outside (word ++ [c]), reader.builder⟩
  | .inside text =>
      if c = '"' then
        (reader.builder.next (.scalar (.string text))).map fun builder => ⟨.outside [], builder⟩
      else (reader.position.next c).map fun position => ⟨position, reader.builder⟩
  | _ => (reader.position.next c).map fun position => ⟨position, reader.builder⟩

/-- The effect of a text. -/
def feed (reader : Reader) (text : Text) : Option Reader :=
  text.foldlM next reader

/-- The value when the text ends. -/
def finish (reader : Reader) : Option Value :=
  match reader.position with
  | .outside word => (settle word reader.builder).bind Builder.finish
  | _ => none

end Reader

/-- The value of a JSON text. -/
def read (text : Text) : Option Value :=
  (({} : Reader).feed text).bind Reader.finish

/-! ## Words and marks -/

namespace Reader

@[simp]
theorem feed_nil (reader : Reader) : reader.feed [] = some reader :=
  rfl

@[simp]
theorem feed_cons (reader : Reader) (c : Char) (rest : Text) :
    reader.feed (c :: rest) = (reader.next c).bind (·.feed rest) :=
  rfl

variable {builder : Builder}

theorem feed_space (rest : Text) :
    feed ⟨.outside [], builder⟩ (' ' :: rest) = feed ⟨.outside [], builder⟩ rest :=
  rfl

theorem feed_newLine (depth : Nat) (rest : Text) :
    feed ⟨.outside [], builder⟩ (newLine depth ++ rest) = feed ⟨.outside [], builder⟩ rest := by
  rw [newLine, List.cons_append]
  change feed ⟨.outside [], builder⟩ (List.replicate (2 * depth) ' ' ++ rest) = _
  induction 2 * depth with
  | zero => rfl
  | succ count inductionHypothesis =>
      rw [List.replicate_succ, List.cons_append, feed_space, inductionHypothesis]

/-- A punctuation mark is a token by itself. -/
theorem feed_punctuation {c : Char} {token : Token} (mark : punctuation? c = some token)
    (rest : Text) :
    feed ⟨.outside [], builder⟩ (c :: rest) =
      (builder.next token).bind fun builder => feed ⟨.outside [], builder⟩ rest := by
  have noQuote : c ≠ '"' := by
    rintro rfl
    contradiction
  have step : next ⟨.outside [], builder⟩ c =
      (builder.next token).map fun builder => ⟨.outside [], builder⟩ := by
    simp [next, endsWord, settle, mark, noQuote]
  rw [feed_cons, step, Option.bind_map]
  rfl

theorem feed_word {word : Text} (letters : ∀ c ∈ word, endsWord c = false) (before rest : Text) :
    feed ⟨.outside before, builder⟩ (word ++ rest) =
      feed ⟨.outside (before ++ word), builder⟩ rest := by
  induction word generalizing before with
  | nil => rw [List.append_nil, List.nil_append]
  | cons c word inductionHypothesis =>
      have next : next ⟨.outside before, builder⟩ c = some ⟨.outside (before ++ [c]), builder⟩ := by
        simp [Reader.next, letters c List.mem_cons_self]
      rw [List.cons_append, feed_cons, next, Option.bind_some,
        inductionHypothesis (fun c member => letters c (List.mem_cons_of_mem _ member)),
        List.append_assoc, List.singleton_append]

/-- What ends a word comes behind the value of the word. -/
theorem next_of_endsWord {c : Char} (ends : endsWord c = true) (word : Text) :
    next ⟨.outside word, builder⟩ c =
      (settle word builder).bind fun builder => next ⟨.outside [], builder⟩ c := by
  simp [Reader.next, ends, settle]

end Reader

/-! ## Strings -/

theorem hexValue?_hexDigit (n : Nat) : hexValue? (hexDigit n) = some (n % 16) := by
  have each : ∀ digit < 16, hexValue? (Nat.digitChar digit) = some digit := by
    decide
  exact each (n % 16) (Nat.mod_lt n (by decide))

namespace Reader

variable {builder : Builder}

/-- A character that is written as a backslash and another one. -/
theorem feed_escape {c d : Char} (escape : escaped? d = some c) (text rest : Text) :
    feed ⟨.inside text, builder⟩ ('\\' :: d :: rest) =
      feed ⟨.inside (text ++ [c]), builder⟩ rest := by
  have noCode : d ≠ 'u' := by
    rintro rfl
    contradiction
  simp [next, Position.next, noCode, escape]

/-- A control character that is written by its number. -/
theorem feed_control {c : Char} (control : c.toNat < 0x20) (text rest : Text) :
    feed ⟨.inside text, builder⟩
        (['\\', 'u', '0', '0', hexDigit (c.toNat / 16), hexDigit c.toNat] ++ rest) =
      feed ⟨.inside (text ++ [c]), builder⟩ rest := by
  have zero : hexValue? '0' = some 0 := by
    decide
  have value : c.toNat / 16 % 16 * 16 + c.toNat % 16 = c.toNat := by
    omega
  have noHalf : ¬ 0xD800 ≤ c.toNat := by
    omega
  have noOther : ¬ 0xDC00 ≤ c.toNat := by
    omega
  simp [next, Position.next, zero, hexValue?_hexDigit, value, Position.ofCode, noHalf, noOther,
    Char.ofNat_toNat]

theorem feed_escapeChar (c : Char) (text rest : Text) :
    feed ⟨.inside text, builder⟩ (escapeChar c ++ rest) =
      feed ⟨.inside (text ++ [c]), builder⟩ rest := by
  rw [escapeChar]
  split_ifs with quote backslash backspace formFeed lineFeed carriageReturn tab control
  any_goals
    subst c
    exact feed_escape rfl text rest
  case pos => exact feed_control control text rest
  case neg => simp [next, Position.next, quote, backslash, control]

theorem feed_flatMap_escapeChar (before text rest : Text) :
    feed ⟨.inside before, builder⟩ (text.flatMap escapeChar ++ rest) =
      feed ⟨.inside (before ++ text), builder⟩ rest := by
  induction text generalizing before with
  | nil => rw [List.append_nil, List.flatMap_nil, List.nil_append]
  | cons c text inductionHypothesis =>
      rw [List.flatMap_cons, List.append_assoc, feed_escapeChar, inductionHypothesis,
        List.append_assoc, List.singleton_append]

/-- A string is read back whatever its text is. -/
theorem feed_quoted (text rest : Text) :
    feed ⟨.outside [], builder⟩ (quoted text ++ rest) =
      (builder.next (.scalar (.string text))).bind fun builder =>
        feed ⟨.outside [], builder⟩ rest := by
  have opened : next ⟨.outside [], builder⟩ '"' = some ⟨.inside [], builder⟩ :=
    rfl
  have closed : next ⟨.inside text, builder⟩ '"' =
      (builder.next (.scalar (.string text))).map fun builder => ⟨.outside [], builder⟩ :=
    rfl
  rw [quoted, List.cons_append, List.cons_append, feed_cons, opened, Option.bind_some,
    List.append_assoc, feed_flatMap_escapeChar, List.nil_append, List.singleton_append, feed_cons,
    closed, Option.bind_map]
  rfl

end Reader

/-! ## Numbers -/

theorem cutAt_of_not_mem {p : Char → Bool} {text : Text} (none : ∀ c ∈ text, p c = false) :
    cutAt p text = (text, .none) := by
  have whole : ∀ c ∈ text, (!p c) = true := by
    intro c member
    rw [none c member]
    rfl
  rw [cutAt, List.takeWhile_eq_self_iff.mpr whole, List.dropWhile_eq_nil_iff.mpr whole]
  rfl

theorem unsigned?_ofNat (n : Nat) : unsigned? (Text.ofNat n) = some (n, 0) := by
  have noPower : ∀ c ∈ Text.ofNat n, (fun c => decide (c = 'e') || decide (c = 'E')) c = false := by
    intro c member
    simp [Text.ne_of_mem_ofNat member]
  have noPoint : ∀ c ∈ Text.ofNat n, (fun c => decide (c = '.')) c = false := by
    intro c member
    simp [Text.ne_of_mem_ofNat member]
  have digits : Text.ofNat n ≠ [] := Nat.toDigits_ne_nil
  have noZero : ¬ ((Text.ofNat n).head? = some '0' ∧ Text.ofNat n ≠ ['0']) := by
    rintro ⟨head, more⟩
    rw [Text.eq_zero_of_head?_ofNat head] at more
    exact more rfl
  simp [unsigned?, cutAt_of_not_mem noPower, cutAt_of_not_mem noPoint, digits, noZero]

theorem scalar?_ofNat (n : Nat) : scalar? (Text.ofNat n) = some (.number n 0) := by
  have noName {word : Text} (letters : word.all Char.isDigit = false) : Text.ofNat n ≠ word := by
    rintro rfl
    rw [Text.all_isDigit_ofNat] at letters
    contradiction
  have noSign : (Text.ofNat n).head? ≠ some '-' := fun head =>
    Text.not_mem_ofNat (by decide) n (List.mem_of_mem_head? head)
  rw [scalar?, if_neg (noName (by decide)), if_neg (noName (by decide)),
    if_neg (noName (by decide)), if_neg noSign, unsigned?_ofNat]
  rfl

namespace Reader

variable {builder : Builder}

theorem endsWord_of_mem_ofNat {n : Nat} {c : Char} (member : c ∈ Text.ofNat n) :
    endsWord c = false := by
  have noMark : punctuation? c = none := by
    have digit := Text.isDigit_of_mem_ofNat member
    unfold punctuation?
    split <;> first | rfl | exact absurd digit (by decide)
  simp [endsWord, isSpace, noMark, Text.ne_of_mem_ofNat member]

/-- A number is read back if what follows it ends a word. -/
theorem feed_ofNat (n : Nat) {c : Char} (ends : endsWord c = true) (rest : Text) :
    feed ⟨.outside [], builder⟩ (Text.ofNat n ++ c :: rest) =
      (builder.next (.scalar (.number n 0))).bind fun builder =>
        feed ⟨.outside [], builder⟩ (c :: rest) := by
  have digits : Text.ofNat n ≠ [] := Nat.toDigits_ne_nil
  rw [feed_word fun _ => endsWord_of_mem_ofNat, feed_cons, next_of_endsWord ends]
  simp [settle, digits, scalar?_ofNat, Option.bind_assoc]

end Reader

/-! ## Values -/

mutual

/-- The value that is written. -/
def toValue : Json → Value
  | .number n => .scalar (.number n 0)
  | .object members => .object (toMembers members)

/-- The members that are written. -/
def toMembers : List (Text × Json) → List (Text × Value)
  | [] => []
  | (name, value) :: rest => (name, toValue value) :: toMembers rest

end

namespace Reader

/-- The name of a member is read with the colon and the blanks around it. -/
theorem feed_name {builder : Builder} {done : List (Text × Value)} {name : Text}
    {frames : List Frame}
    (expected : builder.next (.scalar (.string name)) = some ⟨.colon done name, frames⟩)
    (depth : Nat) (rest : Text) :
    feed ⟨.outside [], builder⟩ (newLine depth ++ (quoted name ++ (": ".toList ++ rest))) =
      feed ⟨.outside [], ⟨.value, .object done name :: frames⟩⟩ rest := by
  have colon : punctuation? ':' = some .colon := rfl
  have space : ": ".toList = [':', ' '] := by decide
  rw [feed_newLine, feed_quoted, expected, Option.bind_some, space, List.cons_append,
    feed_punctuation colon]
  exact feed_space rest

/-- What stands behind a member begins with a comma or a line feed. -/
theorem endsWord_head_writeRest (depth : Nat) (members : List (Text × Json)) (rest : Text) :
    ∃ c text, endsWord c = true ∧
      writeRest (depth + 1) members ++ (newLine depth ++ rest) = c :: text := by
  cases members with
  | nil => exact ⟨'\n', _, by decide, rfl⟩
  | cons member members => exact ⟨',', _, by decide, rfl⟩

mutual

/-- A value is read back from its text if what follows it ends a word. -/
theorem feed_write (depth : Nat) (frames : List Frame) {c : Char} (ends : endsWord c = true)
    (rest : Text) : ∀ json : Json,
    feed ⟨.outside [], ⟨.value, frames⟩⟩ (write depth json ++ c :: rest) =
      feed ⟨.outside [], ⟨.rest (toValue json), frames⟩⟩ (c :: rest)
  | .number n => by
      rw [write, feed_ofNat n ends]
      rfl
  | .object [] => by
      rw [write]
      rfl
  | .object ((name, json) :: members) => by
      have opened : punctuation? '\x7b' = some .openObject := rfl
      obtain ⟨d, text, ends, behind⟩ := endsWord_head_writeRest depth members ('\x7d' :: c :: rest)
      rw [write, writeMember]
      simp only [List.cons_append, List.append_assoc, List.nil_append]
      rw [feed_punctuation opened]
      change feed ⟨.outside [], ⟨.firstName, frames⟩⟩ _ = _
      rw [feed_name rfl, behind, feed_write _ _ ends, ← behind, feed_writeRest]
      rfl

/-- The members behind the first ones are read, and the end of their object. -/
theorem feed_writeRest (depth : Nat) (frames : List Frame) (done : List (Text × Value))
    (name : Text) (value : Value) (rest : Text) : ∀ members : List (Text × Json),
    feed ⟨.outside [], ⟨.rest value, .object done name :: frames⟩⟩
        (writeRest (depth + 1) members ++ (newLine depth ++ '\x7d' :: rest)) =
      feed ⟨.outside [], ⟨.rest (.object (done ++ (name, value) :: toMembers members)), frames⟩⟩
        rest
  | [] => by
      have closed : punctuation? '\x7d' = some .closeObject := rfl
      rw [writeRest, List.nil_append, feed_newLine, feed_punctuation closed]
      rfl
  | (next, json) :: members => by
      have comma : punctuation? ',' = some .comma := rfl
      obtain ⟨d, text, ends, behind⟩ := endsWord_head_writeRest depth members ('\x7d' :: rest)
      rw [writeRest, writeMember]
      simp only [List.cons_append, List.append_assoc]
      rw [feed_punctuation comma]
      change feed ⟨.outside [], ⟨.name (done ++ [(name, value)]), frames⟩⟩ _ = _
      rw [feed_name rfl, behind, feed_write _ _ ends, ← behind, feed_writeRest, List.append_assoc]
      rfl

end

end Reader

/-- A value that ends its text is read back. -/
theorem read_write (json : Json) : read (write 0 json ++ ['\n']) = some (toValue json) := by
  have ends : Reader.endsWord '\n' = true := by decide
  rw [read, Reader.feed_write 0 [] ends [] json]
  rfl

/-- A number with a power of ten, and a character that is written in two halves. -/
example : read "[1.50e-3, \"\\ud83e\\uDD80\", -7]".toList =
    some (.array [.scalar (.number 150 (-5)), .scalar (.string ['🦀']),
      .scalar (.number (-7) 0)]) := by
  rfl

/-- A comma has something behind it, a number does not begin with a zero, and half a character
is none. -/
example : read "[1, ]".toList = none ∧ read "01".toList = none ∧
    read "\"\\ud83e\"".toList = none := by
  exact ⟨rfl, rfl, rfl⟩

end LineTally.Report.Json
