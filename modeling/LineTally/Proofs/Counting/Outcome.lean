import LineTally.Counting.Basic
import LineTally.Proofs.Language.Naming
import LineTally.Proofs.Text.LineReader

/-!
# The outcome of a file

What becomes of a file is decided by three questions, one after the other: whether it can be read,
whether it is binary, and whether its language is known.  A language is known by the file name, or
else by the first line (`detectLanguage?_eq_some_iff`), and each that is known has a profile
(`exists_profile_of_detectLanguage?`).  So a file with a language is always counted, and its lines
are there to be counted: reading them from memory cannot fail (`items_of_memory`).
-/

namespace LineTally

variable {read : Path → Except FileError Bytes} {path : Path} {content : Bytes} {language : String}

/-! ## Binary files -/

/-- One of the bytes that are inspected is zero. -/
def HasEarlyZero (content : Bytes) : Prop :=
  ∃ n < 1024, content[n]? = some 0

theorem isBinary_iff : isBinary content = true ↔ HasEarlyZero content := by
  rw [isBinary, List.contains_iff_mem, List.mem_iff_getElem?, HasEarlyZero]
  simp only [List.getElem?_take, binaryWindow, Option.ite_none_right_eq_some]

/-! ## The language of a file -/

theorem detectLanguage?_eq_or (path : Path) (content : Bytes) :
    detectLanguage? path content =
      (FileName.languageOfPath? path).or (Shebang.languageOfLine? (firstLine content)) := by
  rw [detectLanguage?]
  cases FileName.languageOfPath? path with
  | none => rw [Option.none_or]
  | some known => rw [Option.some_or]

/-- The file name goes before the extension, and both go before the first line. -/
theorem detectLanguage?_eq_some_iff :
    detectLanguage? path content = some language ↔
      FileName.TellsByName path language ∨
        (∀ other, ¬ FileName.TellsByName path other) ∧
          (FileName.TellsByExtension path language ∨
            (∀ other, ¬ FileName.TellsByExtension path other) ∧
              Shebang.languageOfLine? (firstLine content) = some language) := by
  rw [detectLanguage?_eq_or, Option.or_eq_some_iff, FileName.languageOfPath?_eq_some_iff,
    FileName.languageOfPath?_eq_none_iff, and_assoc, or_assoc, ← and_or_left]

theorem exists_profile_of_languageOfPath? (known : FileName.languageOfPath? path = some language) :
    ∃ profile, Profile.lookup language = some profile := by
  rcases FileName.languageOfPath?_eq_some_iff.mp known with
    ⟨_, lowered, -, -, byName⟩ | ⟨-, _, _, lowered, -, -, -, byExtension⟩
  · rw [FileName.languageOfName?] at byName
    split at byName
    · next other listed =>
        obtain rfl := Option.some.inj byName
        exact exists_profile_of_languageOf? listed (by simp)
    · -- The name begins with `dockerfile`.
      obtain ⟨-, same⟩ := Option.ite_none_right_eq_some.mp byName
      obtain rfl := Option.some.inj same
      exact Option.isSome_iff_exists.mp (by decide +kernel)
  · exact exists_profile_of_languageOf? byExtension (by simp)

theorem exists_profile_of_languageOfLine? {line : Text}
    (known : Shebang.languageOfLine? line = some language) :
    ∃ profile, Profile.lookup language = some profile := by
  unfold Shebang.languageOfLine? at known
  split at known
  · obtain ⟨interpreter, -, listed⟩ := Option.bind_eq_some_iff.mp known
    exact exists_profile_of_languageOf? listed (by simp)
  · contradiction

/-- A language that is detected has a profile. -/
theorem exists_profile_of_detectLanguage?
    (detected : detectLanguage? path content = some language) :
    ∃ profile, Profile.lookup language = some profile := by
  rw [detectLanguage?_eq_or] at detected
  rcases Option.or_eq_some_iff.mp detected with byName | ⟨-, byLine⟩
  · exact exists_profile_of_languageOfPath? byName
  · exact exists_profile_of_languageOfLine? byLine

/-! ## The outcome -/

/-- What is in memory is read without a failure. -/
theorem items_of_memory (content : Bytes) :
    LineReader.items (LineReader.Delivery.ofMemory content) = (readLines content).map .line := by
  have delivers : .failure ∉ LineReader.Delivery.ofMemory content := by
    cases content <;> simp [LineReader.Delivery.ofMemory]
  have delivered : (LineReader.Delivery.ofMemory content).flatMap LineReader.Delivery.bytes =
      content := by
    cases content <;> simp [LineReader.Delivery.ofMemory, LineReader.Delivery.bytes]
  rw [LineReader.items_eq_itemsOf, LineReader.stretches_of_not_mem delivers, delivered]
  rfl

/-- The report on a file in this language, which has this profile. -/
def reportOn (path : Path) (language : String) (profile : Profile) (content : Bytes) :
    FileReport where
  path := path
  language := language
  counts := (classify profile (readLines content)).counts
  anomaly := (classify profile (readLines content)).anomaly

/-- What becomes of a file with this content. -/
inductive Becomes (path : Path) (content : Bytes) : FileOutcome → Prop where
  | binary : HasEarlyZero content → Becomes path content (.ignored path .binary)
  | unknown : ¬ HasEarlyZero content → detectLanguage? path content = none →
      Becomes path content (.ignored path .unknownLanguage)
  | counted {language : String} {profile : Profile} : ¬ HasEarlyZero content →
      detectLanguage? path content = some language → Profile.lookup language = some profile →
        Becomes path content (.counted (reportOn path language profile content))

theorem becomes_countContent (path : Path) (content : Bytes) :
    Becomes path content (countContent path content) := by
  rw [countContent]
  split
  · next zero => exact .binary (isBinary_iff.mp zero)
  · next noZero =>
      have noEarlyZero := isBinary_iff.not.mp noZero
      cases detected : detectLanguage? path content with
      | none =>
          rw [profileFor?, detected, Option.bind_none]
          exact .unknown noEarlyZero detected
      | some language =>
          obtain ⟨profile, found⟩ := exists_profile_of_detectLanguage? detected
          rw [profileFor?, detected, Option.bind_some, found]
          simp only [Profile.name_of_lookup found]
          exact .counted noEarlyZero detected found

namespace Becomes

variable {outcome : FileOutcome}

theorem ne_unreadable (becomes : Becomes path content outcome) (error : FileError) :
    outcome ≠ .ignored path (.unreadable error) := by
  cases becomes with
  | binary => simp
  | unknown => simp
  | counted => simp

theorem eq_binary_iff (becomes : Becomes path content outcome) :
    outcome = .ignored path .binary ↔ HasEarlyZero content := by
  cases becomes with
  | binary zero => simp [zero]
  | unknown noZero => simp [noZero]
  | counted noZero => simp [noZero]

theorem eq_unknown_iff (becomes : Becomes path content outcome) (noZero : ¬ HasEarlyZero content) :
    outcome = .ignored path .unknownLanguage ↔ detectLanguage? path content = none := by
  cases becomes with
  | binary zero => contradiction
  | unknown _ undetected => simp [undetected]
  | counted _ detected => simp [detected]

theorem exists_eq_counted (becomes : Becomes path content outcome)
    (noZero : ¬ HasEarlyZero content) (detected : detectLanguage? path content = some language) :
    ∃ profile, Profile.lookup language = some profile ∧
      outcome = .counted (reportOn path language profile content) := by
  cases becomes with
  | binary zero => contradiction
  | unknown _ undetected =>
      rw [undetected] at detected
      contradiction
  | @counted other profile _ detected' found =>
      obtain rfl := Option.some.inj (detected'.symm.trans detected)
      exact ⟨profile, found, rfl⟩

end Becomes

theorem countFile_eq_unreadable_iff {error : FileError} :
    countFile read path = .ignored path (.unreadable error) ↔ read path = .error error := by
  rw [countFile]
  cases read path with
  | error other => simp
  | ok content => simpa using (becomes_countContent path content).ne_unreadable error

/-- A file that cannot be read is ignored for that reason, and no other.  One that is read is
binary if one of its first 1024 bytes is zero, whatever its name; else it is in an unknown language
if none is detected; else it is counted, in the language that is detected, with the counts and the
anomaly of its lines under the profile of that language.  Such a profile is there for each path and
content.  The language is that of the file name, else that of the extension, else that of the
first line. -/
theorem file_has_one_outcome :
    (∀ (read : Path → Except FileError Bytes) path,
      (∀ error, countFile read path = .ignored path (.unreadable error) ↔
        read path = .error error) ∧
      ∀ content, read path = .ok content →
        (countFile read path = .ignored path .binary ↔ HasEarlyZero content) ∧
        (¬ HasEarlyZero content →
          (countFile read path = .ignored path .unknownLanguage ↔
            detectLanguage? path content = none) ∧
          ∀ language, detectLanguage? path content = some language →
            ∃ profile, Profile.lookup language = some profile ∧
              countFile read path = .counted (reportOn path language profile content))) ∧
    (∀ content, LineReader.items (LineReader.Delivery.ofMemory content) =
      (readLines content).map .line) ∧
    ∀ path content language,
      (detectLanguage? path content = some language →
        ∃ profile ∈ Profile.all, profile.name = language) ∧
      (detectLanguage? path content = some language ↔
        FileName.TellsByName path language ∨
          (∀ other, ¬ FileName.TellsByName path other) ∧
            (FileName.TellsByExtension path language ∨
              (∀ other, ¬ FileName.TellsByExtension path other) ∧
                Shebang.languageOfLine? (firstLine content) = some language)) := by
  refine ⟨fun read path => ⟨fun error => countFile_eq_unreadable_iff, ?_⟩, items_of_memory, ?_⟩
  · intro content isRead
    have becomes := becomes_countContent path content
    rw [countFile, isRead]
    exact ⟨becomes.eq_binary_iff, fun noZero =>
      ⟨becomes.eq_unknown_iff noZero, fun language => becomes.exists_eq_counted noZero⟩⟩
  · intro path content language
    refine ⟨fun detected => ?_, detectLanguage?_eq_some_iff⟩
    obtain ⟨profile, found⟩ := exists_profile_of_detectLanguage? detected
    exact ⟨profile, Profile.mem_all_of_lookup found, Profile.name_of_lookup found⟩

/-- A script without an extension: a line of each kind. -/
def script : Bytes :=
  Utf8.encode "#!/bin/sh\n\nls\n".toList

/-- The language of the script is that of its first line. -/
theorem script_is_counted :
    ¬ HasEarlyZero script ∧
      detectLanguage? (Path.ofText "run".toList) script = some "Bourne Again Shell" ∧
      countFile (Function.const Path (.ok script)) (Path.ofText "run".toList) = .counted
        { path := Path.ofText "run".toList
          language := "Bourne Again Shell"
          counts := { blank := 1, comment := 1, code := 1 }
          anomaly := none } := by
  have noZero : ¬ HasEarlyZero script := isBinary_iff.not.mp (by decide)
  have detected : detectLanguage? (Path.ofText "run".toList) script =
      some "Bourne Again Shell" := by
    decide +kernel
  obtain ⟨profile, found, counted⟩ :=
    (((file_has_one_outcome.1 (Function.const Path (.ok script)) (Path.ofText "run".toList)).2
      script rfl).2 noZero).2 _ detected
  have report : (Profile.lookup "Bourne Again Shell").all (fun profile =>
      reportOn (Path.ofText "run".toList) "Bourne Again Shell" profile script =
        { path := Path.ofText "run".toList
          language := "Bourne Again Shell"
          counts := { blank := 1, comment := 1, code := 1 }
          anomaly := none }) = true := by
    decide +kernel
  rw [found, Option.all_some, decide_eq_true_iff] at report
  exact ⟨noZero, detected, counted.trans (congrArg FileOutcome.counted report)⟩

end LineTally
