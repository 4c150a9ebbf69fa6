import LineTally.Proofs.Language.Opener

/-!
# Widths by positions

The width of a single-character literal can be had without taking the text apart: the positions
of its parts are added up, and the text behind the first quote is cut at them.  Such a computation
is checked: it has no result if it cuts a text inside a character.  It never does
(`checkedWidth?_eq`), so what opens at the start of a text is found (`checkedOpener?_eq`).
-/

namespace LineTally

namespace CharLiteral

/-- The position of the first closing brace. -/
def bracePosition? (text : Text) : Option Nat :=
  if '\x7d' ∈ text then some (Text.byteSize (text.takeWhile (· ≠ '\x7d'))) else none

/-- The position where the second quote is expected, if there is one, in the text behind the
first. -/
def checkedCloser? (quote : Char) : Text → Option (Option Nat)
  | [] => some none
  | '\\' :: [] => some none
  | '\\' :: escaped :: rest =>
      let start := Char.utf8Size '\\'
      if escaped = 'u' then
        -- The text is cut as if any escaped character were one byte wide; this one is.
        (Text.dropBytes? (start + 1) ('\\' :: escaped :: rest)).map fun behind =>
          if behind.head? = some '\x7b' then
            (bracePosition? behind).map fun close => start + 1 + close + 1
          else some (start + escaped.utf8Size)
      else some (some (start + escaped.utf8Size))
  | c :: _ => some (if c = quote then none else some c.utf8Size)

/-- The width of the literal at the start of a text, if there is one. -/
def checkedWidth? (quote : Char) : Text → Option (Option Nat)
  | [] => some none
  | c :: body =>
      if c = quote then
        match checkedCloser? quote body with
        | none => none
        | some none => some none
        | some (some close) =>
            (Text.dropBytes? close body).map fun behind =>
              if behind.head? = some quote then some (quote.utf8Size * 2 + close) else none
      else some none

theorem bracePosition?_append_cons {digits : Text} (before : '\x7d' ∉ digits) (rest : Text) :
    bracePosition? (digits ++ '\x7d' :: rest) = some digits.byteSize := by
  have goesOn : ∀ c ∈ digits, (c ≠ '\x7d' : Bool) = true := fun _ member =>
    decide_eq_true (ne_of_mem_of_not_mem member before)
  have closes : '\x7d' ∈ digits ++ '\x7d' :: rest := by simp
  rw [bracePosition?, if_pos closes, List.takeWhile_append_of_pos goesOn]
  simp

theorem bracePosition?_eq_none {text : Text} (unclosed : '\x7d' ∉ text) :
    bracePosition? text = none :=
  if_neg unclosed

theorem splitAfterBrace_append_cons {digits : Text} (before : '\x7d' ∉ digits) (rest : Text) :
    splitAfterBrace (digits ++ '\x7d' :: rest) = some (digits ++ ['\x7d'], rest) :=
  splitAfterBrace_eq_some_iff.mpr ⟨digits, before, rfl, by simp⟩

theorem splitAfterBrace_eq_none {text : Text} (unclosed : '\x7d' ∉ text) :
    splitAfterBrace text = none := by
  apply Option.eq_none_iff_forall_ne_some.mpr
  rintro ⟨number, rest⟩ found
  obtain ⟨digits, -, rfl, rfl⟩ := splitAfterBrace_eq_some_iff.mp found
  exact unclosed (by simp)

/-- Of a number in braces. -/
theorem checkedCloser?_number (quote : Char) (rest : Text) :
    checkedCloser? quote ('\\' :: 'u' :: '\x7b' :: rest) =
      some ((bracePosition? ('\x7b' :: rest)).map fun close => 2 + close + 1) := by
  have cut : Text.dropBytes? 2 ('\\' :: 'u' :: '\x7b' :: rest) = some ('\x7b' :: rest) :=
    Text.dropBytes?_append ['\\', 'u'] ('\x7b' :: rest)
  have start : Char.utf8Size '\\' = 1 := rfl
  simp only [checkedCloser?, start, if_pos, cut, Option.map_some, List.head?_cons]

theorem checkedCloser?_eq (quote : Char) (text : Text) :
    checkedCloser? quote text = some ((body quote text).map (·.1.byteSize)) := by
  unfold body
  split
  · rfl
  · rfl
  · next rest =>
      rw [checkedCloser?_number]
      by_cases closed : '\x7d' ∈ rest
      · obtain ⟨digits, after, rfl, before⟩ := List.eq_append_cons_of_mem closed
        have within : '\x7d' ∉ '\x7b' :: digits := by simp [before]
        have position : bracePosition? ('\x7b' :: (digits ++ '\x7d' :: after)) =
            some (Text.byteSize ('\x7b' :: digits)) := bracePosition?_append_cons within after
        have number : Text.byteSize ('\\' :: 'u' :: '\x7b' :: (digits ++ ['\x7d'])) =
            2 + Text.byteSize ('\x7b' :: digits) + 1 := by
          simp only [Text.byteSize_cons, Text.byteSize_append, Text.byteSize_nil]
          have start : Char.utf8Size '\\' = 1 := rfl
          have u : Char.utf8Size 'u' = 1 := rfl
          have close : Char.utf8Size '\x7d' = 1 := rfl
          omega
        rw [position, splitAfterBrace_append_cons before]
        simp only [Option.map_some, number]
      · rw [splitAfterBrace_eq_none closed, bracePosition?_eq_none]
        · rfl
        · simp [closed]
  · next c rest notNumber =>
      rw [checkedCloser?]
      split
      · next isU =>
          have cut : Text.dropBytes? (Char.utf8Size '\\' + 1) ('\\' :: c :: rest) = some rest :=
            isU ▸ Text.dropBytes?_append ['\\', 'u'] rest
          have opens : rest.head? ≠ some '\x7b' := by
            intro first
            obtain ⟨tail, cons⟩ := List.head?_eq_some_iff.mp first
            exact notNumber tail isU cons
          rw [cut, Option.map_some, if_neg opens]
          rfl
      · rfl
  · next c rest notSingle notNumber notEscaped =>
      rw [checkedCloser?]
      · split
        · rfl
        · simp
      · exact notSingle
      · exact notEscaped

theorem checkedWidth?_eq (quote : Char) (text : Text) :
    checkedWidth? quote text = some (width? quote text) := by
  cases text with
  | nil => rfl
  | cons c rest =>
      rw [checkedWidth?, width?, match?]
      split
      · rw [checkedCloser?_eq]
        cases found : body quote rest with
        | none => rfl
        | some cut =>
            obtain ⟨written, behind⟩ := cut
            obtain ⟨rfl, -⟩ := body_eq_some_iff.mp found
            simp only [Option.map_some, Text.dropBytes?_append]
            cases behind with
            | nil => rfl
            | cons closer after =>
                simp only [List.head?_cons, Option.some.injEq]
                split
                · simp only [Option.map_some, Text.byteSize_append, Text.byteSize_cons,
                    Text.byteSize_nil, List.cons_append, Option.some.injEq]
                  omega
                · rfl
      · rfl

end CharLiteral

namespace Profile

/-- What opens at the start of a text, with its width. -/
def checkedOpener? (profile : Profile) (rest : Text) : Option (Option (Nat × Opener)) :=
  (profile.charLiteral.elim (some none) (CharLiteral.checkedWidth? · rest)).map fun literal =>
    widest
      ((profile.openers.filterMap fun (delimiter, opener) =>
        if !delimiter.isEmpty && delimiter.isPrefixOf rest then some (delimiter.byteSize, opener)
        else none) ++
      (literal.map fun width => (width, Opener.charLiteral width)).toList)

theorem checkedOpener?_eq (profile : Profile) (rest : Text) :
    profile.checkedOpener? rest = some (profile.longestOpener rest) := by
  rw [checkedOpener?, longestOpener, candidates]
  cases profile.charLiteral with
  | none => rfl
  | some quote =>
      rw [Option.elim_some, CharLiteral.checkedWidth?_eq, Option.map_some, Option.bind_some]

end Profile

end LineTally
