import LineTally.Language.Profile

/-!
# What opens at a position

In the midst of code, several delimiters may start at the same place.  The
longest one counts; of two that are equally long, the one listed first, where
block openers come before quotes, quotes before line markers, and all of them
before a single-character literal.
-/

namespace LineTally

/-! ## Single-character literals

A single-character literal is a quote, one character, and the quote again.  The
character may be written with a backslash before it, or as a backslash, `u` and
a number in braces. -/

namespace CharLiteral

/-- Cut a text after the first closing brace. -/
def splitAfterBrace (text : Text) : Option (Text × Text) :=
  match text.dropWhile (· ≠ '\x7d') with
  | [] => none
  | brace :: after => some (text.takeWhile (· ≠ '\x7d') ++ [brace], after)

/-- The character between the quotes, as it is written, and what follows it. -/
def body (quote : Char) : Text → Option (Text × Text)
  | [] => none
  | '\\' :: [] => none
  | '\\' :: 'u' :: '\x7b' :: rest =>
      (splitAfterBrace rest).map fun (number, after) => ('\\' :: 'u' :: '\x7b' :: number, after)
  | '\\' :: c :: rest => some (['\\', c], rest)
  | c :: rest => if c = quote then none else some ([c], rest)

/-- The literal at the start of a text. -/
def match? (quote : Char) : Text → Option Text
  | [] => none
  | c :: rest =>
      if c = quote then
        match body quote rest with
        | some (written, closer :: _) =>
            if closer = quote then some (quote :: written ++ [quote]) else none
        | _ => none
      else none

/-- The width in bytes of the literal at the start of a text. -/
def width? (quote : Char) (text : Text) : Option Nat :=
  (match? quote text).map Text.byteSize

end CharLiteral

/-! ## Openers -/

/-- What opens at a position in code. -/
inductive Opener where
  /-- The block comment with this index. -/
  | block (index : Nat)
  /-- The string literal with this index. -/
  | quote (index : Nat)
  /-- The line comment with this index. -/
  | line (index : Nat)
  /-- A whole single-character literal of this width in bytes. -/
  | charLiteral (width : Nat)
deriving DecidableEq, Repr

namespace Profile

/-- The delimiters that can open something, in order of precedence. -/
def openers (profile : Profile) : List (Text × Opener) :=
  (profile.blockComments.zipIdx.map fun (pair, i) => (pair.opener, .block i)) ++
    (profile.quotes.zipIdx.map fun (quote, i) => (quote.delimiter, .quote i)) ++
    (profile.lineComments.zipIdx.map fun (marker, i) => (marker, .line i))

/-- What may open at the start of `rest`, each with its width in bytes.  An empty
delimiter opens nothing. -/
def candidates (profile : Profile) (rest : Text) : List (Nat × Opener) :=
  (profile.openers.filterMap fun (delimiter, opener) =>
      if !delimiter.isEmpty && delimiter.isPrefixOf rest then
        some (delimiter.byteSize, opener)
      else none) ++
    ((profile.charLiteral.bind (CharLiteral.width? · rest)).map
      fun width => (width, Opener.charLiteral width)).toList

/-- The first of the widest candidates. -/
def widest : List (Nat × Opener) → Option (Nat × Opener)
  | [] => none
  | candidate :: rest =>
      match widest rest with
      | none => some candidate
      | some best => if candidate.1 < best.1 then some best else some candidate

/-- What opens at the start of `rest`, with its width in bytes. -/
def longestOpener (profile : Profile) (rest : Text) : Option (Nat × Opener) :=
  widest (profile.candidates rest)

/-- What opens at the start of `rest`. -/
def matchOpener (profile : Profile) (rest : Text) : Option Opener :=
  (profile.longestOpener rest).map (·.2)

end Profile

end LineTally
