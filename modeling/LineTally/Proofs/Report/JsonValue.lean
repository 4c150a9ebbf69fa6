import LineTally.Proofs.Text.Decimal

/-!
# Building JSON values

The builder of values takes the tokens of a JSON text one by one and knows nothing of how they
were written.  It stands at a place of the grammar, inside of the arrays and objects that are
open; a token that cannot come at this place is refused.
-/

namespace LineTally.Report.Json

/-- A value without parts.  A number is its significand times a power of ten. -/
inductive Scalar where
  | null
  | bool (b : Bool)
  | number (significand exponent : Int)
  | string (text : Text)
deriving DecidableEq, Repr

/-- A JSON value as a reader finds it. -/
inductive Value where
  | scalar (scalar : Scalar)
  | array (items : List Value)
  | object (members : List (Text × Value))

/-- What a JSON text is made of. -/
inductive Token where
  | scalar (scalar : Scalar)
  | openArray
  | closeArray
  | openObject
  | closeObject
  | colon
  | comma
deriving DecidableEq, Repr

/-- An array or object that is open, with what is complete of it.  An object is open for the value
of a name. -/
inductive Frame where
  | array (items : List Value)
  | object (members : List (Text × Value)) (name : Text)

/-- What can come next. -/
inductive Expected where
  | value
  /-- The first item of an array, or its end. -/
  | firstItem
  /-- The first name of an object, or its end. -/
  | firstName
  /-- A name behind these members. -/
  | name (members : List (Text × Value))
  /-- The colon behind a name. -/
  | colon (members : List (Text × Value)) (name : Text)
  /-- A value is complete: what it is part of goes on or ends. -/
  | rest (value : Value)

/-- The builder between two tokens; the innermost of what is open comes first. -/
structure Builder where
  expected : Expected := .value
  frames : List Frame := []

namespace Builder

/-- The first token of a value. -/
def first (frames : List Frame) : Token → Option Builder
  | .scalar scalar => some ⟨.rest (.scalar scalar), frames⟩
  | .openArray => some ⟨.firstItem, frames⟩
  | .openObject => some ⟨.firstName, frames⟩
  | _ => none

/-- The token behind a complete value. -/
def behind (value : Value) : List Frame → Token → Option Builder
  | .array items :: frames, .comma => some ⟨.value, .array (items ++ [value]) :: frames⟩
  | .array items :: frames, .closeArray => some ⟨.rest (.array (items ++ [value])), frames⟩
  | .object members name :: frames, .comma => some ⟨.name (members ++ [(name, value)]), frames⟩
  | .object members name :: frames, .closeObject =>
      some ⟨.rest (.object (members ++ [(name, value)])), frames⟩
  | _, _ => none

/-- The effect of one token. -/
def next (builder : Builder) (token : Token) : Option Builder :=
  match builder.expected, token with
  | .value, token => first builder.frames token
  | .firstItem, .closeArray => some ⟨.rest (.array []), builder.frames⟩
  | .firstItem, token => first (.array [] :: builder.frames) token
  | .firstName, .closeObject => some ⟨.rest (.object []), builder.frames⟩
  | .firstName, .scalar (.string name) => some ⟨.colon [] name, builder.frames⟩
  | .name members, .scalar (.string name) => some ⟨.colon members name, builder.frames⟩
  | .colon members name, .colon => some ⟨.value, .object members name :: builder.frames⟩
  | .rest value, token => behind value builder.frames token
  | _, _ => none

/-- The value when the text ends. -/
def finish (builder : Builder) : Option Value :=
  match builder.expected, builder.frames with
  | .rest value, [] => some value
  | _, _ => none

end Builder

end LineTally.Report.Json
