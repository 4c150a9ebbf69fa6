import LineTally.Line.Scanner
import LineTally.Proofs.Language.Opener

/-!
# Lexemes

A line falls into lexemes: delimiters, characters of code, and the text inside
regions.  Which lexeme comes next depends on where the line stands, its `Mode`,
and on the text that is left; where it leads depends on the lexeme alone.  Kinds
of lines play no part here.

Lexing goes on to the end of the line for every profile.  A lexeme that is empty
closes a region, so no more than the open regions can follow each other without
taking something off the text.
-/

namespace LineTally

/-- The smallest part that a line is read in. -/
inductive Lexeme where
  /-- A character in code that opens nothing. -/
  | plain (c : Char)
  /-- A whole single-character literal. -/
  | charLiteral
  /-- A comment up to the end of the line. -/
  | lineComment
  | blockOpener (pair : Nat)
  | blockText
  /-- The opener of a block comment inside the comment, where it nests. -/
  | nestedOpener
  | blockCloser
  | quoteOpener (quote : Nat)
  | literalText
  | quoteCloser
deriving DecidableEq, Repr

namespace Mode

/-- Where a lexeme leads. -/
def after : Mode → Lexeme → Mode
  | _, .blockOpener pair => .block pair 1
  | _, .quoteOpener quote => .string quote
  | _, .quoteCloser => .code
  | .block pair depth, .nestedOpener => .block pair (depth + 1)
  | .block pair depth, .blockCloser => if depth ≤ 1 then .code else .block pair (depth - 1)
  | mode, _ => mode

/-- A region is opened by a delimiter of the profile that is not empty, and only a
pair that nests is open more than once. -/
def Valid (profile : Profile) : Mode → Prop
  | .code => True
  | .block pair depth => ∃ delimiters, profile.blockComments[pair]? = some delimiters ∧
      delimiters.opener ≠ [] ∧ 1 ≤ depth ∧ (depth = 1 ∨ delimiters.nestable = true)
  | .string quote => ∃ literal, profile.quotes[quote]? = some literal ∧ literal.delimiter ≠ []

end Mode

/-- The lexemes that can be met in a mode. -/
inductive Lexeme.Fits (profile : Profile) : Mode → Lexeme → Prop where
  | plain (c : Char) : Fits profile .code (.plain c)
  | charLiteral : Fits profile .code .charLiteral
  | lineComment : Fits profile .code .lineComment
  | blockOpener {pair : Nat} {delimiters : BlockComment} :
      profile.blockComments[pair]? = some delimiters → delimiters.opener ≠ [] →
        Fits profile .code (.blockOpener pair)
  | quoteOpener {quote : Nat} {literal : Quote} :
      profile.quotes[quote]? = some literal → literal.delimiter ≠ [] →
        Fits profile .code (.quoteOpener quote)
  | blockText (pair depth : Nat) : Fits profile (.block pair depth) .blockText
  | nestedOpener {pair : Nat} {delimiters : BlockComment} (depth : Nat) :
      profile.blockComments[pair]? = some delimiters → delimiters.nestable = true →
        Fits profile (.block pair depth) .nestedOpener
  | blockCloser (pair depth : Nat) : Fits profile (.block pair depth) .blockCloser
  | literalText (quote : Nat) : Fits profile (.string quote) .literalText
  | quoteCloser (quote : Nat) : Fits profile (.string quote) .quoteCloser

namespace Mode

/-- Every lexeme that fits leads to a valid mode. -/
theorem Valid.after {profile : Profile} {mode : Mode} {lexeme : Lexeme}
    (valid : mode.Valid profile) (fits : lexeme.Fits profile mode) :
    (mode.after lexeme).Valid profile := by
  cases fits with
  | plain => trivial
  | charLiteral => trivial
  | lineComment => trivial
  | blockOpener listed ne => exact ⟨_, listed, ne, Nat.le_refl 1, .inl rfl⟩
  | quoteOpener listed ne => exact ⟨_, listed, ne⟩
  | blockText => exact valid
  | nestedOpener depth listed nests =>
      obtain ⟨delimiters, known, ne, positive, _⟩ := valid
      rw [listed] at known
      cases known
      exact ⟨_, listed, ne, Nat.le_add_left 1 depth, .inr nests⟩
  | blockCloser pair depth =>
      obtain ⟨delimiters, known, ne, positive, nested⟩ := valid
      simp only [Mode.after]
      split
      · trivial
      · next deep =>
          have nests : delimiters.nestable = true := nested.resolve_left (by omega)
          exact ⟨delimiters, known, ne, by omega, .inr nests⟩
  | literalText => exact valid
  | quoteCloser => trivial

/-- How many lexemes can follow each other without taking anything off the text. -/
def closers : Mode → Nat
  | .code => 0
  | .block _ depth => depth + 1
  | .string _ => 1

end Mode

namespace Profile

/-- The lexeme at the start of `c :: cs` in code, and the text behind it. -/
def lexCode (profile : Profile) (c : Char) (cs : Text) : Lexeme × Text :=
  match profile.longestOpener (c :: cs) with
  | some (_, .line _) => (.lineComment, [])
  | some (width, .block pair) => (.blockOpener pair, (Text.dropBytes? width (c :: cs)).getD [])
  | some (width, .quote quote) => (.quoteOpener quote, (Text.dropBytes? width (c :: cs)).getD [])
  | some (width, .charLiteral _) => (.charLiteral, (Text.dropBytes? width (c :: cs)).getD [])
  | none => (.plain c, cs)

/-- The lexeme at the start of `c :: cs` inside a block comment, and the text behind
it.  The closer comes before an opener that nests. -/
def lexBlock (delimiters : BlockComment) (c : Char) (cs : Text) : Lexeme × Text :=
  if delimiters.closer.isPrefixOf (c :: cs) then
    (.blockCloser, (c :: cs).drop delimiters.closer.length)
  else if delimiters.nestable && !delimiters.opener.isEmpty &&
      delimiters.opener.isPrefixOf (c :: cs) then
    (.nestedOpener, (c :: cs).drop delimiters.opener.length)
  else (.blockText, cs)

/-- The lexeme at the start of `c :: cs` inside a string literal, and the text behind
it.  An escape takes one more character with it and comes before the delimiter. -/
def lexString (literal : Quote) (c : Char) (cs : Text) : Lexeme × Text :=
  if literal.escape = some c then (.literalText, cs.drop 1)
  else if literal.delimiter.isPrefixOf (c :: cs) then
    (.quoteCloser, (c :: cs).drop literal.delimiter.length)
  else (.literalText, cs)

/-- The lexeme at the start of `c :: cs`, and the text behind it. -/
def lex (profile : Profile) (mode : Mode) (c : Char) (cs : Text) : Lexeme × Text :=
  match mode with
  | .code => profile.lexCode c cs
  | .block pair _ =>
      match profile.blockComments[pair]? with
      | some delimiters => lexBlock delimiters c cs
      | none => (.blockText, cs)
  | .string quote =>
      match profile.quotes[quote]? with
      | some literal => lexString literal c cs
      | none => (.literalText, cs)

theorem lexCode_fits (profile : Profile) (c : Char) (cs : Text) :
    (profile.lexCode c cs).1.Fits profile .code ∧
      (profile.lexCode c cs).2.length < (c :: cs).length := by
  have shorter {width : Nat} {opener : Opener}
      (found : profile.longestOpener (c :: cs) = some (width, opener)) :
      ((Text.dropBytes? width (c :: cs)).getD []).length < (c :: cs).length := by
    obtain ⟨opened, rest, opens, whole, dropped⟩ := dropBytes?_of_longestOpener found
    have positive : 0 < opened.length := List.length_pos_iff.mpr opens.ne_nil
    rw [dropped, whole, Option.getD_some, List.length_append]
    omega
  rw [lexCode]
  split
  case h_1 => exact ⟨.lineComment, Nat.zero_lt_succ _⟩
  case h_2 found =>
      obtain ⟨opened, rest, opens, _⟩ := dropBytes?_of_longestOpener found
      cases opens with
      | block listed ne _ => exact ⟨.blockOpener listed ne, shorter found⟩
  case h_3 found =>
      obtain ⟨opened, rest, opens, _⟩ := dropBytes?_of_longestOpener found
      cases opens with
      | quote listed ne _ => exact ⟨.quoteOpener listed ne, shorter found⟩
  case h_4 found => exact ⟨.charLiteral, shorter found⟩
  case h_5 => exact ⟨.plain c, Nat.lt_succ_self _⟩

/-- A lexeme fits the mode that it is met in. -/
theorem lex_fits (profile : Profile) (mode : Mode) (c : Char) (cs : Text) :
    (profile.lex mode c cs).1.Fits profile mode := by
  cases mode with
  | code => exact (profile.lexCode_fits c cs).1
  | block pair depth =>
      simp only [lex]
      split
      · next delimiters listed =>
          rw [lexBlock]
          split
          · exact .blockCloser pair depth
          · split
            · next nests =>
                simp only [Bool.and_eq_true] at nests
                exact .nestedOpener depth listed nests.1.1
            · exact .blockText pair depth
      · exact .blockText pair depth
  | string quote =>
      simp only [lex]
      split
      · rw [lexString]
        split
        · exact .literalText quote
        · split
          · exact .quoteCloser quote
          · exact .literalText quote
      · exact .literalText quote

private theorem length_drop_cons_lt {delimiter : Text} (ne : delimiter ≠ []) (c : Char)
    (cs : Text) : ((c :: cs).drop delimiter.length).length < (c :: cs).length := by
  have positive : 0 < delimiter.length := List.length_pos_iff.mpr ne
  rw [List.length_drop, List.length_cons]
  omega

/-- A lexeme takes something off the text, or it is empty and closes a region. -/
theorem lex_progress (profile : Profile) (mode : Mode) (c : Char) (cs : Text) :
    (profile.lex mode c cs).2.length < (c :: cs).length ∨
      ((profile.lex mode c cs).2 = c :: cs ∧
        (mode.after (profile.lex mode c cs).1).closers < mode.closers) := by
  cases mode with
  | code => exact .inl (profile.lexCode_fits c cs).2
  | block pair depth =>
      simp only [lex]
      split
      · next delimiters _ =>
          rw [lexBlock]
          split
          · by_cases empty : delimiters.closer = []
            · refine .inr ⟨by rw [empty]; rfl, ?_⟩
              simp only [Mode.after]
              split
              · exact Nat.zero_lt_succ depth
              · simp only [Mode.closers]
                omega
            · exact .inl (length_drop_cons_lt empty c cs)
          · split
            · next nests =>
                simp only [Bool.and_eq_true, Bool.not_eq_true', List.isEmpty_eq_false_iff]
                  at nests
                exact .inl (length_drop_cons_lt nests.1.2 c cs)
            · exact .inl (Nat.lt_succ_self _)
      · exact .inl (Nat.lt_succ_self _)
  | string quote =>
      simp only [lex]
      split
      · next literal _ =>
          rw [lexString]
          split
          · refine .inl ?_
            rw [List.length_drop, List.length_cons]
            omega
          · split
            · by_cases empty : literal.delimiter = []
              · exact .inr ⟨by rw [empty]; rfl, Nat.zero_lt_succ 0⟩
              · exact .inl (length_drop_cons_lt empty c cs)
            · exact .inl (Nat.lt_succ_self _)
      · exact .inl (Nat.lt_succ_self _)

/-- The lexemes of a line, or of what is left of it. -/
def lexemes (profile : Profile) (mode : Mode) : Text → List Lexeme
  | [] => []
  | c :: cs =>
      (profile.lex mode c cs).1 ::
        profile.lexemes (mode.after (profile.lex mode c cs).1) (profile.lex mode c cs).2
termination_by text => (text.length, mode.closers)
decreasing_by
  rcases profile.lex_progress mode c cs with shorter | ⟨same, fewer⟩
  · exact Prod.Lex.left _ _ shorter
  · rw [same]
    exact Prod.Lex.right _ fewer

end Profile

end LineTally
