import Mathlib.Data.List.DropRight
import LineTally.Line.Classification
import LineTally.Proofs.Text.DecodedLines

/-!
# The ends of lines

Each line of a file may end in a line feed, or in a carriage return and a line feed
(`WrittenLines`).  Whatever the choice, the lines are read back as they were written,
unless they hold a line feed or end in a carriage return of their own
(`written_lines_are_read_back`).

A line that ends in carriage returns of its own loses them with its end, and nothing else is
lost (`only_carriage_returns_are_lost`).
-/

namespace LineTally

open Utf8 (encode decode encode_append decode_encode decode_append_cons lineFeed_mem_iff
  getLast?_decode_eq_iff)

/-- The byte that may stand before the line feed at the end of a line. -/
def carriageReturn : UInt8 := 0x0D

/-- How the end of a line is written. -/
inductive LineEnd where
  | lineFeed
  | carriageReturnLineFeed
deriving DecidableEq, Repr

/-- The characters of the end. -/
def LineEnd.text : LineEnd → Text
  | lineFeed => ['\n']
  | carriageReturnLineFeed => ['\r', '\n']

/-- Lines as they are written to a file. -/
structure WrittenLines where
  /-- The lines that have an end, each with its own. -/
  ended : List (Text × LineEnd)
  /-- What is written behind the last end: one more line, unless it is empty. -/
  unended : Text := []
deriving DecidableEq, Repr

namespace WrittenLines

/-- The lines that are written. -/
def lines (written : WrittenLines) : List Text :=
  written.ended.map (·.1) ++ if written.unended = [] then [] else [written.unended]

/-- The bytes of the file. -/
def bytes (written : WrittenLines) : Bytes :=
  encode (written.ended.flatMap fun line => line.1 ++ line.2.text) ++ encode written.unended

end WrittenLines

/-- A line that can be told from its end. -/
def Text.IsPlain (line : Text) : Prop :=
  '\n' ∉ line ∧ line.getLast? ≠ some '\r'

instance (line : Text) : Decidable line.IsPlain :=
  inferInstanceAs (Decidable (_ ∧ _))

theorem dropLineEnd_concat_carriageReturn (text : Text) :
    Text.dropLineEnd (text ++ ['\r']) = Text.dropLineEnd text :=
  List.rdropWhile_concat_pos _ _ _ rfl

/-- No carriage return can go just if none stands at the end. -/
theorem dropReturns_eq_self_iff {text : Text} :
    Text.dropEndWhile (· = '\r') text = text ↔ text.getLast? ≠ some '\r' := by
  refine List.rdropWhile_eq_self_iff.trans ?_
  rcases List.eq_nil_or_concat text with rfl | ⟨before, c, rfl⟩ <;> simp

theorem Text.IsPlain.dropLineEnd {line : Text} (plain : line.IsPlain) :
    line.dropLineEnd = line := by
  rw [dropLineEnd_of_not_mem plain.1, dropReturns_eq_self_iff.mpr plain.2]

/-- The end of a plain line is taken off whole, and nothing else. -/
theorem Text.IsPlain.dropLineEnd_append {line : Text} (plain : line.IsPlain) (ending : LineEnd) :
    Text.dropLineEnd (line ++ ending.text) = line := by
  cases ending with
  | lineFeed => rw [LineEnd.text, dropLineEnd_concat_lineFeed, plain.dropLineEnd]
  | carriageReturnLineFeed =>
      have apart : line ++ ['\r', '\n'] = line ++ ['\r'] ++ ['\n'] := by simp
      rw [LineEnd.text, apart, dropLineEnd_concat_lineFeed, dropLineEnd_concat_carriageReturn,
        plain.dropLineEnd]

/-! ## Lines that are written and read -/

theorem LineEnd.exists_text_eq (ending : LineEnd) :
    ∃ before, '\n' ∉ before ∧ ending.text = before ++ ['\n'] := by
  cases ending with
  | lineFeed => exact ⟨[], List.not_mem_nil, rfl⟩
  | carriageReturnLineFeed => exact ⟨['\r'], by decide, rfl⟩

theorem lineFeed_not_mem_encode {text : Text} (unbroken : '\n' ∉ text) :
    lineFeed ∉ encode text :=
  (Utf8.mem_encode_iff rfl).not.mpr unbroken

theorem readLines_encode_append {line : Text} (plain : line.IsPlain) (ending : LineEnd)
    (rest : Bytes) :
    readLines (encode (line ++ ending.text) ++ rest) = line :: readLines rest := by
  obtain ⟨before, unbroken, written⟩ := ending.exists_text_eq
  have cut : encode (line ++ ending.text) = encode (line ++ before) ++ [lineFeed] := by
    rw [written, ← List.append_assoc, encode_append]
    rfl
  have first : lineFeed ∉ encode (line ++ before) :=
    lineFeed_not_mem_encode (by simp [plain.1, unbroken])
  rw [cut, List.append_assoc, List.singleton_append, readLines_append_cons first, ← cut, lineText,
    decode_encode, plain.dropLineEnd_append]

/-- The last line may have no end; an empty one is no line then. -/
theorem readLines_encode {line : Text} (plain : line.IsPlain) :
    readLines (encode line) = if line = [] then [] else [line] := by
  split
  · next empty => rw [empty]; rfl
  · next ne_nil =>
      have bytes : encode line ≠ [] := fun same => ne_nil (by rw [← decode_encode line, same]; rfl)
      rw [readLines_of_not_mem bytes (lineFeed_not_mem_encode plain.1), lineText, decode_encode,
        plain.dropLineEnd]

theorem readLines_bytes {written : WrittenLines} (plain : ∀ line ∈ written.lines, line.IsPlain) :
    readLines written.bytes = written.lines := by
  obtain ⟨ended, unended⟩ := written
  induction ended with
  | nil =>
      have last : unended.IsPlain := by
        by_cases empty : unended = []
        · rw [empty]; decide
        · exact plain unended (by simp [WrittenLines.lines, empty])
      exact readLines_encode last
  | cons first others inductionHypothesis =>
      have rest : ∀ line ∈ (WrittenLines.mk others unended).lines, line.IsPlain :=
        fun line mem => plain line (List.mem_cons_of_mem _ mem)
      have cut : WrittenLines.bytes ⟨first :: others, unended⟩ =
          encode (first.1 ++ first.2.text) ++ WrittenLines.bytes ⟨others, unended⟩ := by
        simp only [WrittenLines.bytes, List.flatMap_cons, encode_append, List.append_assoc]
      rw [cut, readLines_encode_append (plain first.1 List.mem_cons_self), inductionHypothesis rest]
      rfl

/-- Lines that hold no line feed and end in no carriage return are read back, whatever the ends
that are written behind them.  So the choice of the ends changes neither the classification
nor the language of the file. -/
theorem written_lines_are_read_back (written : WrittenLines)
    (plain : ∀ line ∈ written.lines, line.IsPlain) :
    readLines written.bytes = written.lines ∧
      ∀ other : WrittenLines, other.lines = written.lines →
        (∀ profile : Profile,
          classify profile (readLines other.bytes) = classify profile (readLines written.bytes)) ∧
        ∀ path : Path, detectLanguage? path other.bytes = detectLanguage? path written.bytes := by
  refine ⟨readLines_bytes plain, fun other same => ?_⟩
  have alike : readLines other.bytes = readLines written.bytes := by
    rw [readLines_bytes plain, readLines_bytes (same ▸ plain), same]
  refine ⟨fun profile => by rw [alike], fun path => ?_⟩
  rw [detectLanguage?, detectLanguage?, firstLine_eq_headD, firstLine_eq_headD, alike]

/-- A line with a carriage return inside, an empty line, and a line of two bytes that has no end. -/
theorem mixed_ends_are_read_back :
    (∀ line ∈ (WrittenLines.mk [("a\rb".toList, .carriageReturnLineFeed), ([], .lineFeed)]
        "é".toList).lines, line.IsPlain) ∧
      readLines (WrittenLines.mk [("a\rb".toList, .carriageReturnLineFeed), ([], .lineFeed)]
        "é".toList).bytes = ["a\rb".toList, [], "é".toList] :=
  have plain := by decide
  ⟨plain, (written_lines_are_read_back _ plain).1⟩

/-! ## What is taken off a line -/

/-- A line without its end: the carriage return and the line feed behind it, or the line feed
alone. -/
def withoutEnd (line : Bytes) : Bytes :=
  ((line.dropSuffix? [carriageReturn, lineFeed]).or (line.dropSuffix? [lineFeed])).getD line

theorem dropSuffix?_append (first suffix : Bytes) :
    (first ++ suffix).dropSuffix? suffix = some first :=
  List.dropSuffix?_eq_some_iff.mpr ⟨suffix, rfl, beq_self_eq_true suffix⟩

theorem dropSuffix?_eq_none {line suffix : Bytes} (apart : ¬ suffix <:+ line) :
    line.dropSuffix? suffix = none := by
  refine Option.eq_none_iff_forall_ne_some.mpr fun first dropped => apart ?_
  obtain ⟨same, whole, equal⟩ := List.dropSuffix?_eq_some_iff.mp dropped
  exact ⟨first, by rw [whole, eq_of_beq equal]⟩

theorem withoutEnd_of_not_mem {line : Bytes} (unbroken : lineFeed ∉ line) :
    withoutEnd line = line := by
  have apart {suffix : Bytes} (ends : lineFeed ∈ suffix) : ¬ suffix <:+ line :=
    fun stands => unbroken (stands.subset ends)
  rw [withoutEnd, dropSuffix?_eq_none (apart (by decide)), dropSuffix?_eq_none (apart (by decide))]
  rfl

theorem withoutEnd_append (first : Bytes) :
    withoutEnd (first ++ [carriageReturn, lineFeed]) = first := by
  rw [withoutEnd, dropSuffix?_append]
  rfl

theorem withoutEnd_concat {first : Bytes} (last : first.getLast? ≠ some carriageReturn) :
    withoutEnd (first ++ [lineFeed]) = first := by
  have apart : ¬ [carriageReturn, lineFeed] <:+ first ++ [lineFeed] := by
    rintro ⟨before, whole⟩
    have same : before ++ [carriageReturn] ++ [lineFeed] = first ++ [lineFeed] := by
      rw [List.append_assoc]
      exact whole
    exact last (by rw [← List.append_cancel_right same, List.getLast?_concat])
  rw [withoutEnd, dropSuffix?_eq_none apart, dropSuffix?_append]
  rfl

/-- Besides its end a physical line loses the carriage returns before it. -/
theorem lineText_of_mem_physicalLines {content line : Bytes} (mem : line ∈ physicalLines content) :
    lineText line = (decode (withoutEnd line)).rdropWhile (· = '\r') := by
  rw [physicalLines_eq_cutBehind] at mem
  rcases not_mem_or_eq_concat_of_mem_cutBehind mem with unbroken | ⟨first, unbroken, rfl⟩
  · rw [withoutEnd_of_not_mem unbroken, lineText_of_not_mem unbroken]
    rfl
  · rw [lineText_concat_lineFeed unbroken]
    by_cases last : first.getLast? = some carriageReturn
    · obtain ⟨before, rfl⟩ := List.getLast?_eq_some_iff.mp last
      have decoded : decode (before ++ [carriageReturn]) = decode before ++ ['\r'] :=
        decode_append_cons rfl before []
      rw [List.append_assoc, List.singleton_append, withoutEnd_append, decoded]
      exact List.rdropWhile_concat_pos _ _ _ rfl
    · rw [withoutEnd_concat last]
      rfl

/-- Each line is the text of its physical line without the end, and without the carriage
returns that stand before the end.  So the end is all that is taken off just if no physical line
has a carriage return there. -/
theorem only_carriage_returns_are_lost (content : Bytes) :
    readLines content =
        (physicalLines content).map (fun line =>
          (decode (withoutEnd line)).rdropWhile (· = '\r')) ∧
      (readLines content = (physicalLines content).map (fun line => decode (withoutEnd line)) ↔
        ∀ line ∈ physicalLines content, (withoutEnd line).getLast? ≠ some carriageReturn) := by
  have read : readLines content =
      (physicalLines content).map fun line => (decode (withoutEnd line)).rdropWhile (· = '\r') :=
    List.map_congr_left fun line mem => lineText_of_mem_physicalLines mem
  refine ⟨read, ?_⟩
  rw [read, List.map_inj_left]
  refine forall₂_congr fun line _ => ?_
  exact dropReturns_eq_self_iff.trans (getLast?_decode_eq_iff rfl).not

/-- Of two carriage returns before a line feed only the second belongs to the end, but both are
lost. -/
theorem carriage_return_is_lost :
    readLines (encode "a\r\r\n".toList) = ["a".toList] ∧
      readLines (encode "a\r\r\n".toList) ≠
        (physicalLines (encode "a\r\r\n".toList)).map (fun line => decode (withoutEnd line)) := by
  decide

end LineTally
