import Mathlib.Data.List.DropRight
import LineTally.Language.Detection
import LineTally.Proofs.Text.LossyDecoding
import LineTally.Proofs.Text.PhysicalLines

/-!
# The lines of the decoded file

A character of a single byte, such as a line feed, is part of no other, so it also ends
what is malformed: behind it the decoder starts afresh (`decode_append_cons`).
Physical lines that are decoded one by one are therefore the pieces of the decoded file
(`map_decode_physicalLines`), and the first of them is the line that may name an
interpreter.
-/

namespace LineTally

namespace Utf8

section OneByte

variable {c : Char} {b : UInt8}

/-- No character goes on over another that is a single byte. -/
theorem prefix_of_prefix_append_cons (alone : encodeChar c = [b]) {bytes longer more : Bytes}
    (ne_nil : bytes ≠ []) (begins : BeginsChar longer) (stands : longer <+: bytes ++ b :: more) :
    longer <+: bytes := by
  rcases prefix_or_concat_prefix stands with within | ⟨next, here, onward⟩
  · exact within
  · obtain rfl : b = next := Option.some.inj here
    obtain ⟨d, begins⟩ := begins
    have goesOn : bytes ++ [b] <+: encodeChar d := onward.trans begins
    have mem : b ∈ encodeChar d := goesOn.subset (List.mem_concat_self ..)
    rw [encodeChar_eq_singleton_of_mem mem (low_of_encodeChar alone)] at goesOn
    have short := goesOn.length_le
    rw [List.length_append, List.length_singleton] at short
    exact absurd (List.eq_nil_of_length_eq_zero (by omega)) ne_nil

theorem MaximalSubpart.append_cons (alone : encodeChar c = [b]) {part bytes : Bytes}
    (replaced : MaximalSubpart part bytes) (more : Bytes) :
    MaximalSubpart part (bytes ++ b :: more) := by
  have ne_nil : bytes ≠ [] := by
    rintro rfl
    exact replaced.ne_nil (List.prefix_nil.mp replaced.stands)
  constructor
  case malformed =>
    intro d stands
    have begins : BeginsChar (encodeChar d) := ⟨d, List.prefix_rfl⟩
    exact replaced.malformed d (prefix_of_prefix_append_cons alone ne_nil begins stands)
  case stands => exact replaced.stands.trans (List.prefix_append _ _)
  case ne_nil => exact replaced.ne_nil
  case begins => exact replaced.begins
  case maximal =>
    intro longer stands begins
    exact replaced.maximal (prefix_of_prefix_append_cons alone ne_nil begins stands) begins

theorem Decodes.append_cons (alone : encodeChar c = [b]) {first rest : Bytes} {text others : Text}
    (decodes : Decodes first text) (onward : Decodes rest others) :
    Decodes (first ++ b :: rest) (text ++ c :: others) := by
  induction decodes with
  | nil =>
      have char := Decodes.char c onward
      rwa [alone] at char
  | char d _ inductionHypothesis =>
      rw [List.append_assoc]
      exact .char d inductionHypothesis
  | malformed part _ inductionHypothesis =>
      have replaced := part.append_cons alone rest
      rw [List.append_assoc] at replaced ⊢
      exact .malformed replaced inductionHypothesis

/-- Behind a character of a single byte the decoder starts afresh. -/
theorem decode_append_cons (alone : encodeChar c = [b]) (first rest : Bytes) :
    decode (first ++ b :: rest) = decode first ++ c :: decode rest :=
  (decodes_iff.mp ((decodes_decode first).append_cons alone (decodes_decode rest))).symm

theorem Decodes.getLast?_eq (alone : encodeChar c = [b]) {bytes : Bytes} {text : Text}
    (decodes : Decodes bytes text) (last : text.getLast? = some c) : bytes.getLast? = some b := by
  have goesOn {first rest : Bytes} (last : rest.getLast? = some b) :
      (first ++ rest).getLast? = some b := by
    rw [List.getLast?_append, last]
    rfl
  induction decodes with
  | nil => contradiction
  | @char d rest text onward inductionHypothesis =>
      rw [List.getLast?_cons, Option.some.injEq] at last
      cases behind : text.getLast? with
      | none =>
          obtain rfl : d = c := by rwa [behind] at last
          rw [onward.eq_nil_iff.mpr (List.getLast?_eq_none_iff.mp behind), List.append_nil, alone]
          rfl
      | some e =>
          obtain rfl : e = c := by rwa [behind] at last
          exact goesOn (inductionHypothesis behind)
  | @malformed part rest text _ onward inductionHypothesis =>
      rw [List.getLast?_cons, Option.some.injEq] at last
      cases behind : text.getLast? with
      | none =>
          -- A replacement is written in three bytes, so it is no such character.
          obtain rfl : replacement = c := by rwa [behind] at last
          have short : (encodeChar replacement).length = 1 := congrArg List.length alone
          exact absurd short (by decide)
      | some e =>
          obtain rfl : e = c := by rwa [behind] at last
          exact goesOn (inductionHypothesis behind)

/-- Such a character stands at the end of a text just if its byte stands at the end of the bytes. -/
theorem getLast?_decode_eq_iff (alone : encodeChar c = [b]) {bytes : Bytes} :
    (decode bytes).getLast? = some c ↔ bytes.getLast? = some b := by
  constructor
  · exact (decodes_decode bytes).getLast?_eq alone
  · intro last
    obtain ⟨before, rfl⟩ := List.getLast?_eq_some_iff.mp last
    rw [decode_append_cons alone]
    exact List.getLast?_concat

end OneByte

theorem decode_append_lineFeed (first rest : Bytes) :
    decode (first ++ lineFeed :: rest) = decode first ++ '\n' :: decode rest :=
  decode_append_cons rfl first rest

theorem Decodes.lineFeed_mem {bytes : Bytes} {text : Text} (decodes : Decodes bytes text)
    (mem : '\n' ∈ text) : lineFeed ∈ bytes := by
  induction decodes with
  | nil => contradiction
  | char c _ inductionHypothesis =>
      rcases List.mem_cons.mp mem with rfl | behind
      · exact List.mem_append_left _ (List.mem_singleton_self _)
      · exact List.mem_append_right _ (inductionHypothesis behind)
  | malformed _ _ inductionHypothesis =>
      rcases List.mem_cons.mp mem with same | behind
      · exact absurd same (by decide)
      · exact List.mem_append_right _ (inductionHypothesis behind)

theorem lineFeed_mem_iff {bytes : Bytes} : lineFeed ∈ bytes ↔ '\n' ∈ decode bytes := by
  constructor
  · intro mem
    obtain ⟨first, rest, rfl⟩ := List.append_of_mem mem
    rw [decode_append_lineFeed]
    exact List.mem_append_cons_self
  · exact (decodes_decode bytes).lineFeed_mem

theorem lineFeed_not_mem_decode {bytes : Bytes} (unbroken : lineFeed ∉ bytes) :
    '\n' ∉ decode bytes :=
  lineFeed_mem_iff.not.mp unbroken

theorem decode_ne_nil {bytes : Bytes} (ne_nil : bytes ≠ []) : decode bytes ≠ [] :=
  (decodes_decode bytes).eq_nil_iff.not.mp ne_nil

end Utf8

open Utf8 (decode decode_append_lineFeed lineFeed_not_mem_decode decode_ne_nil)

/-- The physical lines, decoded one by one, are the pieces of the decoded file. -/
theorem map_decode_physicalLines (content : Bytes) :
    (physicalLines content).map decode = cutBehind '\n' (decode content) := by
  rw [physicalLines_eq_cutBehind]
  induction content using @cutBehind_induction _ _ lineFeed with
  | nil => rfl
  | piece line ne_nil unbroken =>
      rw [cutBehind_of_not_mem ne_nil unbroken,
        cutBehind_of_not_mem (decode_ne_nil ne_nil) (lineFeed_not_mem_decode unbroken)]
      rfl
  | cut first rest unbroken inductionHypothesis =>
      rw [cutBehind_append_cons unbroken, decode_append_lineFeed,
        cutBehind_append_cons (lineFeed_not_mem_decode unbroken), List.map_cons,
        inductionHypothesis, decode_append_lineFeed]
      rfl

theorem dropLineEnd_concat_lineFeed (text : Text) :
    Text.dropLineEnd (text ++ ['\n']) = Text.dropLineEnd text :=
  List.rdropWhile_concat_pos _ _ _ rfl

/-- Without a line feed only carriage returns can go. -/
theorem dropLineEnd_of_not_mem {text : Text} (unbroken : '\n' ∉ text) :
    Text.dropLineEnd text = Text.dropEndWhile (· = '\r') text := by
  change text.rdropWhile (fun c => c = '\n' || c = '\r') = text.rdropWhile (· = '\r')
  induction text using List.reverseRecOn with
  | nil => rfl
  | append_singleton text c inductionHypothesis =>
      rw [List.mem_append, List.mem_singleton, not_or] at unbroken
      obtain ⟨unbroken, other⟩ := unbroken
      have same : (c = '\n' || c = '\r') = (c = '\r' : Bool) := by simp [Ne.symm other]
      rw [List.rdropWhile_concat, List.rdropWhile_concat, same, inductionHypothesis unbroken]

theorem lineText_of_not_mem {line : Bytes} (unbroken : lineFeed ∉ line) :
    lineText line = Text.dropEndWhile (· = '\r') (decode line) :=
  dropLineEnd_of_not_mem (lineFeed_not_mem_decode unbroken)

theorem lineText_concat_lineFeed {first : Bytes} (unbroken : lineFeed ∉ first) :
    lineText (first ++ [lineFeed]) = Text.dropEndWhile (· = '\r') (decode first) := by
  have decoded : decode (first ++ [lineFeed]) = decode first ++ ['\n'] :=
    decode_append_lineFeed first []
  rw [lineText, decoded, dropLineEnd_concat_lineFeed,
    dropLineEnd_of_not_mem (lineFeed_not_mem_decode unbroken)]

theorem firstLine_append {first rest : Bytes} (unbroken : lineFeed ∉ first)
    (ends : rest.takeWhile (· ≠ lineFeed) = []) :
    firstLine (first ++ rest) = Text.dropEndWhile (· = '\r') (decode first) := by
  have goesOn : ∀ byte ∈ first, decide (byte ≠ lineFeed) = true :=
    fun byte mem => decide_eq_true fun same => unbroken (same ▸ mem)
  rw [firstLine, List.takeWhile_append_of_pos goesOn, ends, List.append_nil]

/-- The first line is the one that is looked at for an interpreter. -/
theorem head?_readLines {content : Bytes} (ne_nil : content ≠ []) :
    (readLines content).head? = some (firstLine content) := by
  by_cases broken : lineFeed ∈ content
  · obtain ⟨first, rest, rfl, unbroken⟩ := List.eq_append_cons_of_mem broken
    rw [readLines_append_cons unbroken, List.head?_cons, lineText_concat_lineFeed unbroken,
      firstLine_append unbroken rfl]
  · have whole : firstLine content = Text.dropEndWhile (· = '\r') (decode content) := by
      simpa using @firstLine_append content [] broken rfl
    rw [readLines_of_not_mem ne_nil broken, List.head?_cons, lineText_of_not_mem broken, whole]

/-- If there is no line, an empty one is looked at. -/
theorem firstLine_eq_headD (content : Bytes) :
    firstLine content = (readLines content).headD [] := by
  by_cases empty : content = []
  · rw [empty]
    rfl
  · rw [List.headD_eq_head?_getD, head?_readLines empty, Option.getD_some]

/-- A file is decoded in one way, and its lines are cut from its text: behind each line feed,
without the line feeds and carriage returns at the end of each piece.  If there is a first
line, it is the text that decides the language where the file name does not. -/
theorem lines_are_cut_from_the_decoded_file (content : Bytes) :
    (∀ text, Utf8.Decodes content text ↔ text = decode content) ∧
      readLines content =
        (cutBehind '\n' (decode content)).map (List.rdropWhile fun c => c = '\n' || c = '\r') ∧
      (content ≠ [] → ∃ line others, readLines content = line :: others ∧
        line = List.rdropWhile (· = '\r') (decode (content.takeWhile (· ≠ lineFeed))) ∧
        ∀ path, FileName.languageOfPath? path = none →
          detectLanguage? path content = Shebang.languageOfLine? line) := by
  refine ⟨fun _ => Utf8.decodes_iff, ?_, fun ne_nil => ?_⟩
  · rw [← map_decode_physicalLines, List.map_map]
    rfl
  · obtain ⟨others, lines⟩ := List.head?_eq_some_iff.mp (head?_readLines ne_nil)
    refine ⟨firstLine content, others, lines, rfl, fun path unnamed => ?_⟩
    rw [detectLanguage?, unnamed]

example : readLines [0x61, 0xFF, 0x0D, 0x0A, 0xE2, 0x82, 0x0A, 0xC0, 0x0D, 0x62] =
    ["a\uFFFD".toList, "\uFFFD".toList, "\uFFFD\rb".toList] := by
  decide

end LineTally
