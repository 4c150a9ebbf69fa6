import LineTally.Language.Opener

/-!
# The form of single-character literals

A single-character literal is found at the start of a text just if a text of one of
three forms stands there (`match?_eq_some_iff`).  Every form begins and ends with the
quote.
-/

namespace LineTally.CharLiteral

/-- How a single-character literal is written. -/
inductive IsWritten (quote : Char) : Text → Prop where
  | plain {c : Char} : c ≠ '\\' → c ≠ quote → IsWritten quote [quote, c, quote]
  /-- Behind a backslash and `u` an opening brace begins a number, even if it is the
  quote. -/
  | escaped {c : Char} : (c = 'u' → quote ≠ '\x7b') → IsWritten quote [quote, '\\', c, quote]
  | number {digits : Text} : '\x7d' ∉ digits →
      IsWritten quote (quote :: '\\' :: 'u' :: '\x7b' :: digits ++ ['\x7d', quote])

theorem IsWritten.getLast? {quote : Char} {literal : Text} (written : IsWritten quote literal) :
    literal.getLast? = some quote := by
  cases written with
  | plain => rfl
  | escaped => rfl
  | number => rw [List.getLast?_append]; rfl

theorem IsWritten.exists_eq_cons {quote : Char} {literal : Text}
    (written : IsWritten quote literal) : ∃ behind, literal = quote :: behind := by
  cases written <;> exact ⟨_, rfl⟩

theorem IsWritten.ne_nil {quote : Char} {literal : Text} (written : IsWritten quote literal) :
    literal ≠ [] := by
  obtain ⟨behind, rfl⟩ := written.exists_eq_cons
  exact List.cons_ne_nil _ _

theorem splitAfterBrace_eq_some_iff {text number rest : Text} :
    splitAfterBrace text = some (number, rest) ↔
      ∃ digits, '\x7d' ∉ digits ∧ number = digits ++ ['\x7d'] ∧ text = number ++ rest := by
  unfold splitAfterBrace
  constructor
  · intro split
    have whole := List.takeWhile_append_dropWhile (p := (· ≠ '\x7d')) (l := text)
    have before : '\x7d' ∉ text.takeWhile (· ≠ '\x7d') := by
      intro member
      simpa using List.all_eq_true.mp List.all_takeWhile _ member
    cases dropped : text.dropWhile (· ≠ '\x7d') with
    | nil =>
        rw [dropped] at split
        contradiction
    | cons brace after =>
        have isBrace := List.head?_dropWhile_not (· ≠ '\x7d') text
        rw [dropped] at split isBrace whole
        cases split
        have : brace = '\x7d' := by simpa using isBrace
        subst this
        refine ⟨_, before, rfl, ?_⟩
        rw [List.append_assoc, List.singleton_append, whole]
  · rintro ⟨digits, before, rfl, rfl⟩
    have all : ∀ c ∈ digits, (c ≠ '\x7d' : Bool) = true := by
      intro c member
      simp only [ne_eq, decide_not, Bool.not_eq_eq_eq_not, Bool.not_true, decide_eq_false_iff_not]
      rintro rfl
      exact before member
    rw [List.append_assoc, List.singleton_append, List.dropWhile_append_of_pos all,
      List.takeWhile_append_of_pos all]
    simp

/-- What is found between the quotes: a character of its own, one behind a backslash, or a
number. -/
theorem body_eq_some_iff {quote : Char} {text written rest : Text} :
    body quote text = some (written, rest) ↔
      text = written ++ rest ∧
        ((∃ c, c ≠ '\\' ∧ c ≠ quote ∧ written = [c]) ∨
          (∃ c, (c = 'u' → rest.head? ≠ some '\x7b') ∧ written = ['\\', c]) ∨
          ∃ digits, '\x7d' ∉ digits ∧ written = '\\' :: 'u' :: '\x7b' :: digits ++ ['\x7d']) := by
  constructor
  · intro found
    unfold body at found
    split at found
    case h_1 => contradiction
    case h_2 => contradiction
    case h_3 tail =>
        obtain ⟨⟨number, after⟩, split, equal⟩ := Option.map_eq_some_iff.mp found
        obtain ⟨digits, before, rfl, rfl⟩ := splitAfterBrace_eq_some_iff.mp split
        cases equal
        exact ⟨rfl, .inr (.inr ⟨digits, before, rfl⟩)⟩
    case h_4 c tail notNumber =>
        cases found
        refine ⟨rfl, .inr (.inl ⟨c, ?_, rfl⟩)⟩
        rintro rfl opens
        obtain ⟨tail', rfl⟩ := List.head?_eq_some_iff.mp opens
        exact notNumber _ rfl rfl
    case h_5 c tail notSingle notNumber notEscaped =>
        split at found
        · contradiction
        · next different =>
            cases found
            refine ⟨rfl, .inl ⟨c, ?_, different, rfl⟩⟩
            rintro rfl
            cases rest with
            | nil => exact notSingle rfl rfl
            | cons d ds => exact notEscaped d ds rfl rfl
  · rintro ⟨rfl, ⟨c, notBackslash, different, rfl⟩ | ⟨c, notNumber, rfl⟩ | ⟨digits, before, rfl⟩⟩
    · rw [List.singleton_append, body]
      · exact if_neg different
      all_goals
        intros
        exact notBackslash (by assumption)
    · rw [List.cons_append, List.singleton_append, body]
      intro tail isU opens
      exact notNumber isU (by rw [opens]; rfl)
    · have split : splitAfterBrace (digits ++ ['\x7d'] ++ rest) =
          some (digits ++ ['\x7d'], rest) :=
        splitAfterBrace_eq_some_iff.mpr ⟨digits, before, rfl, rfl⟩
      simp only [List.cons_append, body]
      rw [split, Option.map_some]

/-- What stands between two quotes makes up a literal if it is found there. -/
theorem match?_of_body (quote : Char) (written rest : Text)
    (found : body quote (written ++ quote :: rest) = some (written, quote :: rest)) :
    match? quote (quote :: written ++ [quote] ++ rest) = some (quote :: written ++ [quote]) := by
  rw [List.append_assoc, List.singleton_append, List.cons_append, match?, if_pos rfl, found]
  exact if_pos rfl

/-- A literal is found just where one of the forms stands. -/
theorem match?_eq_some_iff {quote : Char} {text literal : Text} :
    match? quote text = some literal ↔ IsWritten quote literal ∧ literal <+: text := by
  constructor
  · intro found
    unfold match? at found
    split at found
    · contradiction
    · split at found
      · next c rest isQuote =>
          split at found
          · next written closer after bodyFound =>
              split at found
              · next closes =>
                  obtain ⟨rfl, form⟩ := body_eq_some_iff.mp bodyFound
                  subst isQuote closes
                  cases found
                  refine ⟨?_, after, by simp⟩
                  rcases form with ⟨d, notBackslash, different, rfl⟩ | ⟨d, notNumber, rfl⟩ |
                    ⟨digits, before, rfl⟩
                  · exact .plain notBackslash different
                  · exact .escaped fun isU isBrace => notNumber isU (congrArg some isBrace)
                  · simpa using IsWritten.number before
              · contradiction
          · contradiction
      · contradiction
  · rintro ⟨written, rest, rfl⟩
    cases written with
    | @plain c notBackslash different =>
        apply match?_of_body quote [c] rest
        exact body_eq_some_iff.mpr ⟨rfl, .inl ⟨c, notBackslash, different, rfl⟩⟩
    | @escaped c notNumber =>
        apply match?_of_body quote ['\\', c] rest
        refine body_eq_some_iff.mpr ⟨rfl, .inr (.inl ⟨c, fun isU isBrace => ?_, rfl⟩)⟩
        exact notNumber isU (Option.some.inj isBrace)
    | @number digits before =>
        have found := match?_of_body quote ('\\' :: 'u' :: '\x7b' :: digits ++ ['\x7d']) rest
          (body_eq_some_iff.mpr ⟨rfl, .inr (.inr ⟨digits, before, rfl⟩)⟩)
        simpa using found

end LineTally.CharLiteral
