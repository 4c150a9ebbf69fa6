import LineTally.Text.Basic

/-!
# UTF-8

Encoding a text as bytes, and decoding bytes that need not be well formed: each
longest beginning of a sequence that cannot be completed becomes one
replacement character.  `decode?` accepts exactly the encodings of texts.

The decoder reads one byte at a time.  Between two bytes it is either at the
start of a character, or inside one and waiting for a byte in a known range.
-/

namespace LineTally

/-- The content of a file, or a name, as it is stored. -/
abbrev Bytes := List UInt8

namespace Utf8

/-- U+FFFD, which stands for bytes that are no character. -/
def replacement : Char := '\uFFFD'

/-- The bytes of one character. -/
def encodeChar (c : Char) : Bytes :=
  let code := c.toNat
  if code < 0x80 then
    [code.toUInt8]
  else if code < 0x800 then
    [(0xC0 + code / 0x40).toUInt8, (0x80 + code % 0x40).toUInt8]
  else if code < 0x10000 then
    [(0xE0 + code / 0x1000).toUInt8, (0x80 + code / 0x40 % 0x40).toUInt8,
      (0x80 + code % 0x40).toUInt8]
  else
    [(0xF0 + code / 0x40000).toUInt8, (0x80 + code / 0x1000 % 0x40).toUInt8,
      (0x80 + code / 0x40 % 0x40).toUInt8, (0x80 + code % 0x40).toUInt8]

/-- The bytes of a text. -/
def encode (text : Text) : Bytes :=
  text.flatMap encodeChar

/-- Where the decoder stands between two bytes. -/
inductive State where
  /-- A character starts here. -/
  | start
  /-- `remaining + 1` more bytes complete the character, the next of them between
  `low` and `high`; `code` is the number read so far. -/
  | inside (remaining : Nat) (low high : UInt8) (code : Nat)
deriving DecidableEq, Repr

/-- The effect of a byte at the start of a character: the text it yields and the
new state.  The ranges of the second byte exclude overlong forms, surrogates and
numbers above U+10FFFF. -/
def lead (b : UInt8) : Text × State :=
  if b < 0x80 then ([Char.ofNat b.toNat], .start)
  else if b < 0xC2 then ([replacement], .start)
  else if b < 0xE0 then ([], .inside 0 0x80 0xBF (b.toNat - 0xC0))
  else if b == 0xE0 then ([], .inside 1 0xA0 0xBF 0)
  else if b == 0xED then ([], .inside 1 0x80 0x9F 0xD)
  else if b < 0xF0 then ([], .inside 1 0x80 0xBF (b.toNat - 0xE0))
  else if b == 0xF0 then ([], .inside 2 0x90 0xBF 0)
  else if b < 0xF4 then ([], .inside 2 0x80 0xBF (b.toNat - 0xF0))
  else if b == 0xF4 then ([], .inside 2 0x80 0x8F 4)
  else ([replacement], .start)

/-- The effect of one byte.  A byte that does not continue the character begun
before it ends that character with a replacement and is read afresh. -/
def step : State → UInt8 → Text × State
  | .start, b => lead b
  | .inside remaining low high code, b =>
      if low ≤ b && b ≤ high then
        let code := code * 0x40 + (b.toNat - 0x80)
        match remaining with
        | 0 => ([Char.ofNat code], .start)
        | remaining + 1 => ([], .inside remaining 0x80 0xBF code)
      else
        let (text, state) := lead b
        (replacement :: text, state)

/-- What is left to write when the bytes end: a replacement for a character that
was begun and not completed. -/
def State.finish : State → Text
  | .start => []
  | .inside .. => [replacement]

/-- Decode from a given state. -/
def decodeFrom : State → Bytes → Text
  | state, [] => state.finish
  | state, b :: rest => (step state b).1 ++ decodeFrom (step state b).2 rest

/-- The decoder over a file of any length: the text so far, latest character
first, and the state reached. -/
def decodeOnto (done : Text) (state : State) : Bytes → Text
  | [] => (state.finish.reverse ++ done).reverse
  | b :: rest =>
      let (text, next) := step state b
      decodeOnto (text.reverse ++ done) next rest

/-- Decode bytes that need not be well formed. -/
def decode (bytes : Bytes) : Text :=
  decodeOnto [] .start bytes

theorem decodeOnto_eq (done : Text) (state : State) (bytes : Bytes) :
    decodeOnto done state bytes = done.reverse ++ decodeFrom state bytes := by
  induction bytes generalizing done state with
  | nil => simp [decodeOnto, decodeFrom]
  | cons b rest inductionHypothesis =>
      simp [decodeOnto, decodeFrom, inductionHypothesis]

theorem decode_eq_decodeFrom (bytes : Bytes) : decode bytes = decodeFrom .start bytes := by
  simp [decode, decodeOnto_eq]

/-- Decode well-formed bytes only. -/
def decode? (bytes : Bytes) : Option Text :=
  let text := decode bytes
  if encode text = bytes then some text else none

end Utf8

end LineTally
