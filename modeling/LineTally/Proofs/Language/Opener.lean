import LineTally.Language.Opener
import LineTally.Proofs.Language.CharLiteral

/-!
# What an opener takes off the text

The candidates at a position are exactly the delimiters that stand there, each
with the number of its bytes.  In particular what `longestOpener` finds is a
beginning of the text that is not empty, and its width reaches up to its end.
-/

namespace LineTally

namespace Profile

/-- The delimiter `opened` stands at the start of `text` and opens something. -/
inductive Opens (profile : Profile) (text : Text) : Opener → Text → Prop where
  | block {index : Nat} {pair : BlockComment} :
      profile.blockComments[index]? = some pair → pair.opener ≠ [] → pair.opener <+: text →
        Opens profile text (.block index) pair.opener
  | quote {index : Nat} {literal : Quote} :
      profile.quotes[index]? = some literal → literal.delimiter ≠ [] →
        literal.delimiter <+: text → Opens profile text (.quote index) literal.delimiter
  | line {index : Nat} {marker : Text} :
      profile.lineComments[index]? = some marker → marker ≠ [] → marker <+: text →
        Opens profile text (.line index) marker
  | charLiteral {quote : Char} {literal : Text} :
      profile.charLiteral = some quote → CharLiteral.match? quote text = some literal →
        Opens profile text (.charLiteral literal.byteSize) literal

theorem Opens.ne_nil {profile : Profile} {text opened : Text} {opener : Opener}
    (opens : profile.Opens text opener opened) : opened ≠ [] := by
  cases opens with
  | block _ ne _ => exact ne
  | quote _ ne _ => exact ne
  | line _ ne _ => exact ne
  | charLiteral _ found => exact (CharLiteral.match?_eq_some_iff.mp found).1.ne_nil

theorem Opens.isPrefix {profile : Profile} {text opened : Text} {opener : Opener}
    (opens : profile.Opens text opener opened) : opened <+: text := by
  cases opens with
  | block _ _ stands => exact stands
  | quote _ _ stands => exact stands
  | line _ _ stands => exact stands
  | charLiteral _ found => exact (CharLiteral.match?_eq_some_iff.mp found).2

/-- The delimiters that can open something, each with its index. -/
theorem mem_openers_iff {profile : Profile} {delimiter : Text} {opener : Opener} :
    (delimiter, opener) ∈ profile.openers ↔
      (∃ i pair, profile.blockComments[i]? = some pair ∧
        pair.opener = delimiter ∧ opener = .block i) ∨
      (∃ i literal, profile.quotes[i]? = some literal ∧
        literal.delimiter = delimiter ∧ opener = .quote i) ∨
      (∃ i, profile.lineComments[i]? = some delimiter ∧ opener = .line i) := by
  simp only [openers, List.mem_append, List.mem_map, Prod.exists, Prod.mk.injEq,
    List.mk_mem_zipIdx_iff_getElem?, or_assoc]
  constructor
  · rintro (⟨pair, i, listed, same, rfl⟩ | ⟨literal, i, listed, same, rfl⟩ |
      ⟨marker, i, listed, rfl, rfl⟩)
    · exact .inl ⟨i, pair, listed, same, rfl⟩
    · exact .inr (.inl ⟨i, literal, listed, same, rfl⟩)
    · exact .inr (.inr ⟨i, listed, rfl⟩)
  · rintro (⟨i, pair, listed, same, rfl⟩ | ⟨i, literal, listed, same, rfl⟩ | ⟨i, listed, rfl⟩)
    · exact .inl ⟨pair, i, listed, same, rfl⟩
    · exact .inr (.inl ⟨literal, i, listed, same, rfl⟩)
    · exact .inr (.inr ⟨delimiter, i, listed, rfl, rfl⟩)

/-- The candidates are the delimiters that stand at the start of the text, each with
its width. -/
theorem mem_candidates_iff {profile : Profile} {text : Text} {width : Nat} {opener : Opener} :
    (width, opener) ∈ profile.candidates text ↔
      ∃ opened, profile.Opens text opener opened ∧ width = opened.byteSize := by
  simp only [candidates, List.mem_append, List.mem_filterMap, Prod.exists, Option.mem_toList,
    Option.map_eq_some_iff, Option.bind_eq_some_iff, CharLiteral.width?, Prod.mk.injEq]
  constructor
  · rintro (⟨delimiter, listedOpener, listed, chosen⟩ |
      ⟨size, ⟨quote, quoted, literal, found, rfl⟩, rfl, rfl⟩)
    · split at chosen
      · next stands =>
          cases chosen
          simp only [Bool.and_eq_true, Bool.not_eq_true', List.isEmpty_eq_false_iff,
            List.isPrefixOf_iff_prefix] at stands
          refine ⟨delimiter, ?_, rfl⟩
          rcases mem_openers_iff.mp listed with
            ⟨i, pair, at_i, rfl, rfl⟩ | ⟨i, literal, at_i, rfl, rfl⟩ | ⟨i, at_i, rfl⟩
          · exact .block at_i stands.1 stands.2
          · exact .quote at_i stands.1 stands.2
          · exact .line at_i stands.1 stands.2
      · contradiction
    · exact ⟨literal, .charLiteral quoted found, rfl⟩
  · rintro ⟨opened, opens, rfl⟩
    have chosen (ne : opened ≠ []) (stands : opened <+: text) :
        (if !opened.isEmpty && opened.isPrefixOf text then some (opened.byteSize, opener)
          else none) = some (opened.byteSize, opener) := by
      simp [ne, stands]
    cases opens with
    | block at_i ne stands =>
        exact .inl ⟨_, _, mem_openers_iff.mpr (.inl ⟨_, _, at_i, rfl, rfl⟩), chosen ne stands⟩
    | quote at_i ne stands =>
        exact .inl ⟨_, _, mem_openers_iff.mpr (.inr (.inl ⟨_, _, at_i, rfl, rfl⟩)),
          chosen ne stands⟩
    | line at_i ne stands =>
        exact .inl ⟨_, _, mem_openers_iff.mpr (.inr (.inr ⟨_, at_i, rfl⟩)), chosen ne stands⟩
    | charLiteral quoted found =>
        exact .inr ⟨_, ⟨_, quoted, _, found, rfl⟩, rfl, rfl⟩

theorem mem_of_widest {candidates : List (Nat × Opener)} {best : Nat × Opener}
    (found : widest candidates = some best) : best ∈ candidates := by
  induction candidates with
  | nil => simp [widest] at found
  | cons candidate rest inductionHypothesis =>
      rw [widest] at found
      split at found
      · cases found
        exact List.mem_cons_self
      · next other deeper =>
          split at found
          · cases found
            exact List.mem_cons_of_mem _ (inductionHypothesis deeper)
          · cases found
            exact List.mem_cons_self

/-- What opens takes a beginning off the text: moving on by its width is possible
and leaves what follows it. -/
theorem dropBytes?_of_longestOpener {profile : Profile} {text : Text} {width : Nat}
    {opener : Opener} (found : profile.longestOpener text = some (width, opener)) :
    ∃ opened rest, profile.Opens text opener opened ∧ text = opened ++ rest ∧
      Text.dropBytes? width text = some rest := by
  obtain ⟨opened, opens, rfl⟩ := mem_candidates_iff.mp (mem_of_widest found)
  obtain ⟨rest, rfl⟩ := opens.isPrefix
  exact ⟨opened, rest, opens, rfl, Text.dropBytes?_append opened rest⟩

end Profile

end LineTally
