import LineTally.Proofs.Language.CharLiteral
import LineTally.Proofs.Text.Utf8Order

/-!
# The width of single-character literals

The width of a literal is a number of bytes.  It is found just where the first bytes of a
text, so many of them, are a literal of one of the three forms
(`literal_is_found_by_its_form`); there is one such number at most, and it leads to the end
of a character.
-/

namespace LineTally.CharLiteral

/-- The first `width` bytes of the text are a literal. -/
def StandsWithin (quote : Char) (text : Text) (width : Nat) : Prop :=
  width ≤ (Utf8.encode text).length ∧
    ∃ literal, IsWritten quote literal ∧ (Utf8.encode text).take width = Utf8.encode literal

/-- The first bytes of a text are those of a text that stands at its start. -/
theorem take_encode_eq_encode_iff {text literal : Text} {width : Nat} :
    width ≤ (Utf8.encode text).length ∧ (Utf8.encode text).take width = Utf8.encode literal ↔
      literal <+: text ∧ width = literal.byteSize := by
  constructor
  · rintro ⟨within, taken⟩
    have begins : Utf8.encode literal <+: Utf8.encode text :=
      taken ▸ List.take_prefix width (Utf8.encode text)
    refine ⟨Utf8.encode_prefix_encode_iff.mp begins, ?_⟩
    rw [← Utf8.length_encode, ← taken, List.length_take_of_le within]
  · rintro ⟨stands, rfl⟩
    have begins := Utf8.encode_prefix_encode_iff.mpr stands
    rw [← Utf8.length_encode]
    exact ⟨begins.length_le, (List.prefix_iff_eq_take.mp begins).symm⟩

theorem standsWithin_iff {quote : Char} {text : Text} {width : Nat} :
    StandsWithin quote text width ↔
      ∃ literal, match? quote text = some literal ∧ width = literal.byteSize := by
  simp only [match?_eq_some_iff, and_assoc, ← take_encode_eq_encode_iff]
  constructor
  · rintro ⟨within, literal, written, taken⟩
    exact ⟨literal, written, within, taken⟩
  · rintro ⟨literal, written, within, taken⟩
    exact ⟨within, literal, written, taken⟩

theorem width?_eq_some_iff {quote : Char} {text : Text} {width : Nat} :
    width? quote text = some width ↔ StandsWithin quote text width := by
  rw [standsWithin_iff, width?, Option.map_eq_some_iff]
  exact exists_congr fun literal => and_congr_right fun _ => eq_comm

/-- Both quotes belong to the literal, even where they could be taken for one. -/
theorem IsWritten.exists_between {quote : Char} {literal : Text}
    (written : IsWritten quote literal) : ∃ between, literal = quote :: between ++ [quote] := by
  cases written with
  | @plain c => exact ⟨[c], rfl⟩
  | @escaped c => exact ⟨['\\', c], rfl⟩
  | @number digits => exact ⟨'\\' :: 'u' :: '\x7b' :: digits ++ ['\x7d'], by simp⟩

/-- A width is found just if that many bytes at the start of the text are a literal of one of
the forms, and none is found just if there is no literal.  No other number of bytes is one.
What is found begins and ends with the quote, and behind it the text goes on with a whole
character. -/
theorem literal_is_found_by_its_form (quote : Char) (text : Text) :
    (∀ width, width? quote text = some width ↔ StandsWithin quote text width) ∧
      (width? quote text = none ↔ ∀ width, ¬ StandsWithin quote text width) ∧
      (∀ width other, StandsWithin quote text width → StandsWithin quote text other →
        width = other) ∧
      ∀ width, width? quote text = some width →
        ∃ between behind, text = (quote :: between ++ [quote]) ++ behind ∧
          (Utf8.encode text).take width = Utf8.encode (quote :: between ++ [quote]) ∧
          Text.dropBytes? width text = some behind := by
  refine ⟨fun _ => width?_eq_some_iff, ?_, ?_, ?_⟩
  · rw [Option.eq_none_iff_forall_ne_some]
    exact forall_congr' fun _ => not_congr width?_eq_some_iff
  · intro width other stands standsToo
    rw [← width?_eq_some_iff] at stands standsToo
    exact Option.some.inj (stands.symm.trans standsToo)
  · intro width found
    obtain ⟨literal, matched, rfl⟩ := Option.map_eq_some_iff.mp found
    obtain ⟨written, stands⟩ := match?_eq_some_iff.mp matched
    obtain ⟨between, rfl⟩ := written.exists_between
    have taken := (take_encode_eq_encode_iff.mpr ⟨stands, rfl⟩).2
    obtain ⟨behind, rfl⟩ := stands
    exact ⟨between, behind, rfl, taken, Text.dropBytes?_append _ behind⟩

/-- Where an opening brace is the quote, `u` behind a backslash begins a number. -/
example :
    width? '\x7b' "\x7b\\n\x7b".toList = some 4 ∧ width? '\x7b' "\x7b\\u\x7b".toList = none ∧
      width? '\x7b' "\x7b\\u\x7b9\x7d\x7b".toList = some 7 := by
  decide

end LineTally.CharLiteral
