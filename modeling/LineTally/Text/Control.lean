import LineTally.Text.Utf8

/-!
# Control characters

Where there is no terminal, nothing is written that would steer one: `plain` leaves
out the control characters of a text, those that lay it out excepted, and the
sequences that they begin.  What is left is visible, and a text that is visible
throughout is left as it is.
-/

namespace LineTally

/-- How far a sequence that steers a terminal has come. -/
inductive ControlState where
  /-- No sequence has begun. -/
  | text
  /-- After an escape. -/
  | escape
  /-- In an escape sequence of more than one character. -/
  | escapeInside
  /-- In a sequence that began with an escape and a bracket. -/
  | sequence
  /-- At the start of a string for the device. -/
  | deviceStart
  /-- In the numbers of a string for the device. -/
  | deviceNumbers
  /-- Between the numbers of a string for the device and what it says. -/
  | deviceInside
  /-- In what a string for the device says. -/
  | deviceText
  /-- In a string for the operating system. -/
  | systemString
  /-- In a string of another kind. -/
  | otherString
deriving DecidableEq, Repr

namespace Text

/-- The control characters that lay text out: tab, line feed, form feed and carriage
return. -/
def isLayout (c : Char) : Bool :=
  c = '\t' || c = '\n' || c = '\x0C' || c = '\r'

/-- Whether a character counts as text.  The control characters outside ASCII do. -/
def isVisible (c : Char) : Bool :=
  let code := c.toNat
  isLayout c || (0x20 ≤ code && code ≤ 0x7E) || 0x80 ≤ code

/-- Whether the byte that ends strings is among the bytes of a character. -/
def hasTerminator (c : Char) : Bool :=
  (Utf8.encodeChar c).contains 0x9C

end Text

namespace ControlState

/-- The state after a character within a sequence. -/
def advance (state : ControlState) (c : Char) : ControlState :=
  let code := c.toNat
  let within (low high : Nat) : Bool := low ≤ code && code ≤ high
  match state with
  | .text => .text
  | .escape =>
      if c = '[' then .sequence
      else if c = ']' then .systemString
      else if c = 'P' then .deviceStart
      else if c = 'X' || c = '^' || c = '_' then .otherString
      else if within 0x20 0x2F then .escapeInside
      else if within 0x30 0x7E then .text
      else .escape
  | .escapeInside => if within 0x30 0x7E then .text else .escapeInside
  | .sequence => if within 0x40 0x7E then .text else .sequence
  | .deviceStart =>
      if within 0x40 0x7E then .deviceText
      else if within 0x30 0x3F then .deviceNumbers
      else if within 0x20 0x2F then .deviceInside
      else .deviceStart
  | .deviceNumbers =>
      if within 0x3C 0x7E then .deviceText
      else if within 0x20 0x2F then .deviceInside
      else .deviceNumbers
  | .deviceInside => if within 0x30 0x7E then .deviceText else .deviceInside
  | .deviceText => if Text.hasTerminator c then .text else .deviceText
  | .systemString => if c = '\x07' then .text else .systemString
  | .otherString => if Text.hasTerminator c then .text else .otherString

/-- The state after a character.  An escape begins a sequence and two of the control
characters break one off, whatever the state is. -/
def next (state : ControlState) (c : Char) : ControlState :=
  if c = '\x1B' then .escape
  else if c = '\x18' || c = '\x1A' then .text
  else state.advance c

/-- Whether a character is shown.  Layout is shown inside a sequence too, but not
inside a string. -/
def shows : ControlState → Char → Bool
  | .text, c => Text.isVisible c
  | .escape, c => Text.isLayout c
  | .escapeInside, c => Text.isLayout c
  | .sequence, c => Text.isLayout c
  | _, _ => false

theorem isVisible_of_shows {state : ControlState} {c : Char} (shown : state.shows c = true) :
    Text.isVisible c = true := by
  cases state <;> simp_all [shows, Text.isVisible]

end ControlState

namespace Text

/-- The plain part of what follows a state.  `showing` tells whether the character
before was shown: a stretch of visible characters goes on once it has begun, even
inside a sequence, and only a character outside ASCII makes it forget the sequence. -/
def plainFrom (state : ControlState) (showing : Bool) : Text → Text
  | [] => []
  | c :: rest =>
      if showing && isVisible c then
        c :: plainFrom (if c.toNat < 0x80 then state else .text) true rest
      else if state.shows c then c :: plainFrom (state.next c) true rest
      else plainFrom (state.next c) false rest

/-- A text without what would steer a terminal. -/
def plain (text : Text) : Text :=
  plainFrom .text false text

theorem isVisible_of_mem_plainFrom {state : ControlState} {showing : Bool} {text : Text}
    {c : Char} (member : c ∈ plainFrom state showing text) : isVisible c = true := by
  induction text generalizing state showing with
  | nil => simp [plainFrom] at member
  | cons first rest inductionHypothesis =>
      rw [plainFrom] at member
      split at member
      next going =>
        rw [Bool.and_eq_true] at going
        rcases List.mem_cons.mp member with rfl | later
        · exact going.2
        · exact inductionHypothesis later
      next =>
        split at member
        next shown =>
          rcases List.mem_cons.mp member with rfl | later
          · exact ControlState.isVisible_of_shows shown
          · exact inductionHypothesis later
        next => exact inductionHypothesis member

/-- Nothing else than visible characters is left. -/
theorem isVisible_of_mem_plain {text : Text} {c : Char} (member : c ∈ plain text) :
    isVisible c = true :=
  isVisible_of_mem_plainFrom member

theorem next_text_of_isVisible {c : Char} (visible : isVisible c = true) :
    ControlState.text.next c = .text := by
  have escape : c ≠ '\x1B' := by
    rintro rfl
    simp [isVisible, isLayout] at visible
  simp [ControlState.next, ControlState.advance, escape]

theorem plainFrom_text {showing : Bool} {text : Text}
    (visible : ∀ c ∈ text, isVisible c = true) : plainFrom .text showing text = text := by
  induction text generalizing showing with
  | nil => rfl
  | cons c rest inductionHypothesis =>
      have first := visible c List.mem_cons_self
      have later : ∀ c ∈ rest, isVisible c = true :=
        fun c member => visible c (List.mem_cons_of_mem _ member)
      simp [plainFrom, ControlState.shows, first, next_text_of_isVisible first,
        inductionHypothesis later]

/-- A visible text is left as it is. -/
theorem plain_eq_self {text : Text} (visible : ∀ c ∈ text, isVisible c = true) :
    plain text = text :=
  plainFrom_text visible

end Text

end LineTally
