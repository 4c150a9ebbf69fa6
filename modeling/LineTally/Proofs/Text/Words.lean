import LineTally.Proofs.Text.Decimal
import LineTally.Text.Basic

/-!
# Words

A text is cut into words at its blank characters, so that what stands on the two sides of a
blank character is cut by itself (`words_append_cons`).  However words are spaced, they are read
back, and every text is its words, spaced in some way (`words_eq_iff`).  Words that are joined by
single spaces are read back, too (`words_intercalate`).
-/

namespace LineTally

theorem isBlank_of_isDigit {c : Char} (digit : c.isDigit = true) : isBlank c = false := by
  simp only [Char.isDigit, Bool.and_eq_true, decide_eq_true_eq, ge_iff_le, UInt32.le_iff_toNat_le]
    at digit
  have low : 48 ≤ c.toNat := digit.1
  have high : c.toNat ≤ 57 := digit.2
  simp only [isBlank]
  grind

namespace Text

/-- Not empty, and without a blank character. -/
def IsWord (text : Text) : Prop :=
  text ≠ [] ∧ ∀ c ∈ text, isBlank c = false

instance (text : Text) : Decidable text.IsWord :=
  decidable_of_iff (text ≠ [] ∧ text.all (!isBlank ·) = true) (by simp [IsWord])

@[simp]
theorem words_nil : words [] = [] :=
  rfl

theorem words_append_cons {c : Char} (blank : isBlank c = true) (first rest : Text) :
    words (first ++ c :: rest) = words first ++ words rest := by
  rw [words, List.splitOnP_append_cons _ _ blank, List.filter_append]
  rfl

theorem words_cons {c : Char} (blank : isBlank c = true) (text : Text) :
    words (c :: text) = words text :=
  words_append_cons blank [] text

theorem words_blanks_append {blanks : Text} (blank : blanks.allBlank = true) (text : Text) :
    words (blanks ++ text) = words text := by
  induction blanks with
  | nil => rfl
  | cons c blanks inductionHypothesis =>
      rw [allBlank, List.all_cons, Bool.and_eq_true] at blank
      rw [List.cons_append, words_cons blank.1, inductionHypothesis blank.2]

theorem words_append_blanks {blanks : Text} (blank : blanks.allBlank = true) (text : Text) :
    words (text ++ blanks) = words text := by
  cases blanks with
  | nil => rw [List.append_nil]
  | cons c blanks =>
      rw [allBlank, List.all_cons, Bool.and_eq_true] at blank
      have none := words_blanks_append blank.2 []
      rw [List.append_nil] at none
      rw [words_append_cons blank.1, none, words_nil, List.append_nil]

theorem allBlank_replicate (count : Nat) : allBlank (List.replicate count ' ') = true := by
  rw [allBlank, List.all_eq_true]
  intro c member
  rw [List.eq_of_mem_replicate member]
  decide

theorem words_replicate_append (count : Nat) (text : Text) :
    words (List.replicate count ' ' ++ text) = words text :=
  words_blanks_append (allBlank_replicate count) text

theorem words_append_replicate (text : Text) (count : Nat) :
    words (text ++ List.replicate count ' ') = words text :=
  words_append_blanks (allBlank_replicate count) text

theorem IsWord.words_eq {word : Text} (isWord : word.IsWord) : words word = [word] := by
  rw [words, List.splitOnP_eq_singleton isWord.2]
  simp [isWord.1]

/-! ## Words and the text they stand in -/

/-- The words stand in the text one after the other, with blank characters between them and
perhaps before and behind them. -/
inductive Spaced : List Text → Text → Prop where
  | nil {blanks : Text} : blanks.allBlank = true → Spaced [] blanks
  | cons {blanks word rest : Text} {words : List Text} :
      blanks.allBlank = true → word.IsWord → rest.head?.all isBlank = true → Spaced words rest →
        Spaced (word :: words) (blanks ++ word ++ rest)

theorem Spaced.cons_blank {c : Char} {words : List Text} {text : Text} (spaced : Spaced words text)
    (blank : isBlank c = true) : Spaced words (c :: text) := by
  cases spaced with
  | nil blanks =>
      apply Spaced.nil
      rw [allBlank, List.all_cons, blank]
      exact blanks
  | @cons before word rest words blanks isWord apart behind =>
      have longer : allBlank (c :: before) = true := by
        rw [allBlank, List.all_cons, blank]
        exact blanks
      exact .cons longer isWord apart behind

theorem Spaced.words_eq {parts : List Text} {text : Text} (spaced : Spaced parts text) :
    words text = parts := by
  induction spaced with
  | @nil blanks blank =>
      have none := words_blanks_append blank []
      rwa [List.append_nil] at none
  | @cons blanks word rest parts blank isWord apart _ inductionHypothesis =>
      rw [List.append_assoc, words_blanks_append blank]
      cases rest with
      | nil =>
          rw [List.append_nil, isWord.words_eq, ← inductionHypothesis, words_nil]
      | cons c rest =>
          rw [words_append_cons apart, isWord.words_eq, ← inductionHypothesis, words_cons apart]
          rfl

/-- What has been read of a word goes on in what follows it. -/
theorem spaced_words_append {begun : Text} (seen : ∀ c ∈ begun, isBlank c = false) (text : Text) :
    Spaced (words (begun ++ text)) (begun ++ text) := by
  induction text generalizing begun with
  | nil =>
      rw [List.append_nil]
      by_cases empty : begun = []
      · rw [empty]
        exact .nil rfl
      · have isWord : begun.IsWord := ⟨empty, seen⟩
        have alone : Spaced [begun] ([] ++ begun ++ []) := .cons rfl isWord rfl (.nil rfl)
        rw [isWord.words_eq]
        rwa [List.append_nil] at alone
  | cons c text inductionHypothesis =>
      cases blank : isBlank c with
      | true =>
          have behind : Spaced (words text) (c :: text) :=
            (inductionHypothesis (List.forall_mem_nil _)).cons_blank blank
          rw [words_append_cons blank]
          by_cases empty : begun = []
          · rwa [empty]
          · have isWord : begun.IsWord := ⟨empty, seen⟩
            have whole : Spaced (begun :: words text) ([] ++ begun ++ c :: text) :=
              .cons rfl isWord blank behind
            rwa [isWord.words_eq]
      | false =>
          have longer : ∀ d ∈ begun ++ [c], isBlank d = false := by
            intro d member
            rcases List.mem_append.mp member with before | last
            · exact seen d before
            · rw [List.mem_singleton.mp last, blank]
          have whole := inductionHypothesis longer
          rwa [List.append_assoc, List.singleton_append] at whole

theorem words_eq_iff {text : Text} {parts : List Text} :
    words text = parts ↔ Spaced parts text := by
  constructor
  · rintro rfl
    exact spaced_words_append (List.forall_mem_nil _) text
  · exact Spaced.words_eq

/-! ## Single spaces -/

theorem words_intercalate {parts : List Text} (each : ∀ part ∈ parts, part.IsWord) :
    words ([' '].intercalate parts) = parts := by
  induction parts with
  | nil => rfl
  | cons part rest inductionHypothesis =>
      have isWord := each part List.mem_cons_self
      cases rest with
      | nil => rw [List.intercalate_singleton, isWord.words_eq]
      | cons next rest =>
          have behind := inductionHypothesis fun part member =>
            each part (List.mem_cons_of_mem _ member)
          rw [List.intercalate_cons_cons, List.append_assoc, List.singleton_append,
            words_append_cons (by decide), isWord.words_eq, behind, List.singleton_append]

theorem IsWord.lineFeed_not_mem {word : Text} (isWord : word.IsWord) : '\n' ∉ word :=
  fun member => absurd (isWord.2 _ member) (by decide)

/-- Words that are joined by single spaces stand on one line. -/
theorem lineFeed_not_mem_intercalate {parts : List Text} (each : ∀ part ∈ parts, part.IsWord) :
    '\n' ∉ [' '].intercalate parts := by
  induction parts with
  | nil => exact List.not_mem_nil
  | cons part rest inductionHypothesis =>
      have inside := (each part List.mem_cons_self).lineFeed_not_mem
      have behind := inductionHypothesis fun part member =>
        each part (List.mem_cons_of_mem _ member)
      cases rest with
      | nil => rwa [List.intercalate_singleton]
      | cons next rest =>
          rw [List.intercalate_cons_cons]
          simp only [List.mem_append, List.mem_singleton, not_or]
          exact ⟨⟨inside, by decide⟩, behind⟩

/-- The digits of a number are a word. -/
theorem isWord_ofNat (n : Nat) : (ofNat n).IsWord :=
  ⟨Nat.toDigits_ne_nil, fun _ member => isBlank_of_isDigit (isDigit_of_mem_ofNat member)⟩

end Text

end LineTally
