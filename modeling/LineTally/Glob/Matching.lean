import LineTally.Glob.Pattern

/-!
# Matching a pattern

A pattern matches a text if its tokens, one after the other, cover all of it.
A star covers slashes too.  Two stars stop covering only where a component starts
or where the text ends.

All ends of the text are treated at once: `Token.row` tells for every ending
whether a token and what follows it match it, given the same about what follows.
So the work is bounded by the number of tokens times the length of the text.
-/

namespace LineTally.Glob

/-- Whether a character belongs to one of the ranges. -/
def Range.contains (c : Char) : Range → Bool
  | .single d => c = d
  | .span first last => first ≤ c && c ≤ last

/-- Whether a token that stands for one character stands for this one. -/
def Token.accepts (c : Char) : Token → Bool
  | .literal d => c = d
  | .anyChar => true
  | .within ranges => ranges.any (·.contains c)
  | .outside ranges => !ranges.any (·.contains c)
  | .anySequence => false
  | .anyComponents => false

/-- The answers for a token that stands for one character: what follows it has to
match the ending that is one shorter. -/
def rowOfChar (token : Token) : Text → List Bool → List Bool
  | c :: rest, _ :: tail =>
      (token.accepts c && tail.head?.getD false) :: rowOfChar token rest tail
  | _, _ => [false]

/-- The answers for a star: what follows it has to match some ending. -/
def rowOfSequence : List Bool → List Bool
  | [] => []
  | here :: later =>
      let later := rowOfSequence later
      (here || later.head?.getD false) :: later

/-- For every ending, whether what follows matches an ending that is shorter and
comes after a slash or is empty. -/
def laterComponent : Text → List Bool → List Bool
  | c :: rest, _ :: tail =>
      let later := laterComponent rest tail
      let next := (c = '/' || rest.isEmpty) && tail.head?.getD false
      (next || later.head?.getD false) :: later
  | _, _ => [false]

/-- The answers of `token` for every ending of the text, the whole text first,
given the answers of the tokens that follow it. -/
def Token.row (token : Token) (text : Text) (following : List Bool) : List Bool :=
  match token with
  | .anySequence => rowOfSequence following
  | .anyComponents => List.zipWith (· || ·) following (laterComponent text following)
  | token => rowOfChar token text following

/-- The answers of no token: only the empty ending is matched. -/
def emptyRow : Text → List Bool
  | [] => [true]
  | _ :: rest => false :: emptyRow rest

/-- The answers of a list of tokens. -/
def rows (text : Text) (tokens : List Token) : List Bool :=
  tokens.foldr (fun token following => token.row text following) (emptyRow text)

/-- Whether the pattern covers all of the text. -/
def Pattern.isMatch (pattern : Pattern) (text : Text) : Bool :=
  (rows text pattern.tokens).head?.getD false

end LineTally.Glob
