import LineTally.Text.Basic

/-!
# Glob patterns

A pattern is a text in which some characters stand for others: `?` for any one
character, `*` for any number of them, `[...]` for one of a set and `[!...]` for
one outside it.  Two stars stand for any number of whole path components; they
must themselves be a component.

`Pattern.compile` reads a pattern; where it is malformed, the error tells at which
character.
-/

namespace LineTally.Glob

/-- One part of a set of characters. -/
inductive Range where
  | single (c : Char)
  /-- All characters from the first to the last. -/
  | span (first last : Char)
deriving DecidableEq, Repr

/-- One part of a pattern. -/
inductive Token where
  | literal (c : Char)
  | anyChar
  /-- Any number of characters. -/
  | anySequence
  /-- Any number of whole path components. -/
  | anyComponents
  | within (ranges : List Range)
  | outside (ranges : List Range)
deriving DecidableEq, Repr

/-- A pattern that has been read. -/
structure Pattern where
  tokens : List Token
deriving DecidableEq, Repr

/-- Why a pattern is malformed. -/
inductive Fault where
  /-- More than two stars in a row. -/
  | tooManyStars
  /-- Two stars that are no component by themselves. -/
  | partialComponent
  /-- A bracket that starts no set. -/
  | badRange
deriving DecidableEq, Repr

/-- A fault and the number of characters before it. -/
structure PatternError where
  position : Nat
  fault : Fault
deriving DecidableEq, Repr

/-- The wording for people. -/
def Fault.message : Fault → String
  | .tooManyStars => "wildcards are either regular `*` or recursive `**`"
  | .partialComponent => "recursive wildcards must form a single path component"
  | .badRange => "invalid range pattern"

/-- The wording for people. -/
def PatternError.message (error : PatternError) : String :=
  s!"Pattern syntax error near position {error.position}: {error.fault.message}"

/-- The parts of a set; a dash between two characters makes them a span. -/
def rangesOf : Text → List Range
  | [] => []
  | first :: '-' :: last :: rest => .span first last :: rangesOf rest
  | c :: rest => .single c :: rangesOf rest

/-- Cut a text at the first closing bracket. -/
def splitAtBracket : Text → Option (Text × Text)
  | [] => none
  | c :: rest =>
      if c = ']' then some ([], rest)
      else (splitAtBracket rest).map fun (inside, after) => (c :: inside, after)

/-- The set whose opening bracket comes before the text, and what follows it.  A
set is never empty: a closing bracket in its first place belongs to it. -/
def set? : Text → Option (Token × Text)
  | '!' :: first :: rest =>
      (splitAtBracket rest).map fun (inside, after) =>
        (.outside (rangesOf (first :: inside)), after)
  | first :: rest =>
      if first = '!' then none
      else (splitAtBracket rest).map fun (inside, after) =>
        (.within (rangesOf (first :: inside)), after)
  | [] => none

theorem length_lt_of_splitAtBracket {text inside after : Text}
    (split : splitAtBracket text = some (inside, after)) : after.length < text.length := by
  induction text generalizing inside with
  | nil => simp [splitAtBracket] at split
  | cons c rest inductionHypothesis =>
      rw [splitAtBracket] at split
      split at split
      · simp only [Option.some.injEq, Prod.mk.injEq] at split
        simp [← split.2]
      · simp only [Option.map_eq_some_iff, Prod.mk.injEq, Prod.exists] at split
        obtain ⟨inside, _, deeper, _, rfl⟩ := split
        have := inductionHypothesis deeper
        simp only [List.length_cons]
        omega

theorem length_lt_of_set? {text after : Text} {token : Token}
    (found : set? text = some (token, after)) : after.length < text.length := by
  unfold set? at found
  split at found
  · simp only [Option.map_eq_some_iff, Prod.mk.injEq, Prod.exists] at found
    obtain ⟨_, _, split, _, rfl⟩ := found
    have := length_lt_of_splitAtBracket split
    simp only [List.length_cons]
    omega
  · split at found
    · simp at found
    · simp only [Option.map_eq_some_iff, Prod.mk.injEq, Prod.exists] at found
      obtain ⟨_, _, split, _, rfl⟩ := found
      have := length_lt_of_splitAtBracket split
      simp only [List.length_cons]
      omega
  · simp at found

/-- The tokens of the rest of a pattern, after `position` characters of which
`before` is the last. -/
def tokensFrom (position : Nat) (before : Option Char) (text : Text) :
    Except PatternError (List Token) :=
  match text with
  | [] => .ok []
  | '?' :: rest => return .anyChar :: (← tokensFrom (position + 1) (some '?') rest)
  | '*' :: '*' :: '*' :: _ => .error ⟨position + 2, .tooManyStars⟩
  | '*' :: '*' :: rest =>
      if before ≠ none ∧ before ≠ some '/' then .error ⟨position - 1, .partialComponent⟩
      else
        match rest with
        | [] => .ok [.anyComponents]
        | '/' :: rest => return .anyComponents :: (← tokensFrom (position + 3) (some '/') rest)
        | _ :: _ => .error ⟨position + 2, .partialComponent⟩
  | '*' :: rest => return .anySequence :: (← tokensFrom (position + 1) (some '*') rest)
  | '[' :: rest =>
      match found : set? rest with
      | none => .error ⟨position, .badRange⟩
      | some (token, after) =>
          have := length_lt_of_set? found
          let position := position + 1 + (rest.length - after.length)
          return token :: (← tokensFrom position (some ']') after)
  | c :: rest => return .literal c :: (← tokensFrom (position + 1) (some c) rest)
termination_by text.length

/-- Read a pattern. -/
def Pattern.compile (text : Text) : Except PatternError Pattern :=
  return ⟨← tokensFrom 0 none text⟩

end LineTally.Glob
