import LineTally.Proofs.Language.Listing
import LineTally.Proofs.Language.Visible
import LineTally.Proofs.Lists
import LineTally.Proofs.Text.Words

/-!
# The interpreter of a first line

A first line is read as words.  One of them is the program that runs the file: the first, or
behind `env` the first that is no option (`Selects`).  Of that word only the name of the program
counts, not where the program lies nor its version (`Starts`), so the line is in the language of
that name, if there is one (`languageOfLine?_of_selects`).
-/

namespace LineTally.Shebang

/-- A text that tells where a program lies. -/
def IsPlace (text : Text) : Prop :=
  text = [] ∨ text.getLast? = some '/'

/-- A text of digits and dots, or none. -/
def IsVersion (text : Text) : Prop :=
  ∀ c ∈ text, c.isDigit = true ∨ c = '.'

/-- The word starts the program of this name, wherever it lies and whatever its version is. -/
def Starts (word name : Text) : Prop :=
  ∃ place version, word = place ++ name ++ version ∧ IsPlace place ∧ IsVersion version

/-- The word starts `env`, of no version. -/
def IsEnv (word : Text) : Prop :=
  ∃ place, word = place ++ "env".toList ∧ IsPlace place

/-- Neither a place nor a version is part of the name. -/
structure IsProgramName (name : Text) : Prop where
  slash_not_mem : '/' ∉ name
  unversioned : ∀ c, name.getLast? = some c → ¬ (c.isDigit = true ∨ c = '.')

/-- The word of a command that is started: the first, or behind `env` the first that does not
begin with a hyphen. -/
inductive Selects : List Text → Text → Prop where
  | first {word : Text} {arguments : List Text} : ¬ IsEnv word → Selects (word :: arguments) word
  | behindEnv {env word : Text} {options arguments : List Text} :
      IsEnv env → (∀ option ∈ options, option.head? = some '-') → word.head? ≠ some '-' →
        Selects (env :: options ++ word :: arguments) word

/-! ## Places and versions -/

section Parts

variable {word name base place version : Text}

theorem IsVersion.slash_not_mem (isVersion : IsVersion version) : '/' ∉ version := by
  intro member
  exact absurd (isVersion '/' member) (by decide)

theorem baseName_append (isPlace : IsPlace place) (plain : '/' ∉ base) :
    baseName (place ++ base) = base := by
  apply rtakeWhile_append
  · intro c last
    rcases isPlace with rfl | ends
    · contradiction
    · rw [last, Option.some.injEq] at ends
      rw [ends]
      rfl
  · exact fun _ member => decide_eq_true (ne_of_mem_of_not_mem member plain)

theorem exists_place_append_baseName (word : Text) :
    ∃ place, word = place ++ baseName word ∧ IsPlace place := by
  refine ⟨word.rdropWhile (· ≠ '/'), (List.rdropWhile_append_rtakeWhile).symm, ?_⟩
  have stops := stopsAt_rdropWhile (p := (· ≠ '/')) word
  cases last : (word.rdropWhile (· ≠ '/')).getLast? with
  | none => exact .inl (List.getLast?_eq_none_iff.mp last)
  | some c =>
      have isSlash : c = '/' := by simpa using stops c last
      exact .inr (by rw [last, isSlash])

theorem slash_not_mem_baseName (word : Text) : '/' ∉ baseName word := by
  intro member
  have goesOn := List.mem_rtakeWhile_imp (p := (· ≠ '/')) member
  simp at goesOn

theorem baseName_eq_env_iff : baseName word = "env".toList ↔ IsEnv word := by
  constructor
  · intro isEnv
    obtain ⟨place, whole, isPlace⟩ := exists_place_append_baseName word
    exact ⟨place, isEnv ▸ whole, isPlace⟩
  · rintro ⟨place, rfl, isPlace⟩
    exact baseName_append isPlace (by decide)

theorem dropVersion_append
    (unversioned : ∀ c, name.getLast? = some c → ¬ (c.isDigit = true ∨ c = '.'))
    (isVersion : IsVersion version) : dropVersion (name ++ version) = name := by
  apply rdropWhile_append
  · intro c last
    simpa using unversioned c last
  · intro c member
    simpa using isVersion c member

theorem exists_dropVersion_append (base : Text) :
    ∃ version, base = dropVersion base ++ version ∧ IsVersion version := by
  refine ⟨base.rtakeWhile fun c => c.isDigit || c = '.', List.rdropWhile_append_rtakeWhile.symm, ?_⟩
  intro c member
  simpa using List.mem_rtakeWhile_imp member

theorem unversioned_dropVersion (base : Text) (c : Char)
    (last : (dropVersion base).getLast? = some c) : ¬ (c.isDigit = true ∨ c = '.') := by
  have stops := stopsAt_rdropWhile (p := fun c : Char => c.isDigit || c = '.') base c last
  simpa using stops

theorem IsProgramName.eq_dropVersion (isName : IsProgramName name) (starts : Starts word name) :
    dropVersion (baseName word) = name := by
  obtain ⟨place, version, rfl, isPlace, isVersion⟩ := starts
  have plain : '/' ∉ name ++ version := by
    rw [List.mem_append, not_or]
    exact ⟨isName.slash_not_mem, isVersion.slash_not_mem⟩
  rw [List.append_assoc, baseName_append isPlace plain,
    dropVersion_append isName.unversioned isVersion]

/-- Every word starts a program of one name. -/
theorem isProgramName_and_starts_iff :
    IsProgramName name ∧ Starts word name ↔ name = dropVersion (baseName word) := by
  constructor
  · rintro ⟨isName, starts⟩
    exact (isName.eq_dropVersion starts).symm
  · rintro rfl
    obtain ⟨place, whole, isPlace⟩ := exists_place_append_baseName word
    obtain ⟨version, base, isVersion⟩ := exists_dropVersion_append (baseName word)
    constructor
    · constructor
      · intro member
        apply slash_not_mem_baseName word
        rw [base]
        exact List.mem_append_left version member
      · exact unversioned_dropVersion (baseName word)
    · refine ⟨place, version, ?_, isPlace, isVersion⟩
      rw [List.append_assoc, ← base]
      exact whole

end Parts

/-! ## The word that is selected -/

section Selection

variable {command word name : Text} {words : List Text}

theorem interpreterOf?_of_selects (selects : Selects words word) :
    interpreterOf? words = some (baseName word) := by
  cases selects with
  | first notEnv =>
      rw [interpreterOf?, if_neg (mt baseName_eq_env_iff.mp notEnv)]
  | @behindEnv env word options arguments isEnv areOptions notOption =>
      have skipped : options.find? (fun option => option.head? ≠ some '-') = none := by
        rw [List.find?_eq_none]
        intro option member
        simpa using areOptions option member
      have found : (options ++ word :: arguments).find? (fun word => word.head? ≠ some '-') =
          some word := by
        rw [List.find?_append, skipped, Option.none_or]
        exact List.find?_cons_of_pos (decide_eq_true notOption)
      rw [List.cons_append, interpreterOf?, if_pos (baseName_eq_env_iff.mpr isEnv), found,
        Option.map_some]

theorem exists_selects (chosen : interpreterOf? words ≠ none) : ∃ word, Selects words word := by
  cases words with
  | nil => contradiction
  | cons first arguments =>
      rw [interpreterOf?] at chosen
      split at chosen
      · next isEnv =>
          obtain ⟨word, found⟩ :=
            Option.ne_none_iff_exists'.mp (mt Option.map_eq_none_iff.mpr chosen)
          obtain ⟨notOption, options, behind, rfl, areOptions⟩ :=
            List.find?_eq_some_iff_append.mp found
          refine ⟨word, .behindEnv (baseName_eq_env_iff.mp isEnv) ?_ (of_decide_eq_true notOption)⟩
          intro option member
          simpa using areOptions option member
      · next notEnv => exact ⟨first, .first (mt baseName_eq_env_iff.mpr notEnv)⟩

theorem words_trim (text : Text) : Text.words text.trim = Text.words text := by
  obtain ⟨leading, trailing, whole, leadingBlank, trailingBlank⟩ := text.exists_append_trim
  calc
    Text.words text.trim = Text.words (text.trim ++ trailing) :=
      (Text.words_append_blanks trailingBlank _).symm
    _ = Text.words (leading ++ (text.trim ++ trailing)) :=
      (Text.words_blanks_append leadingBlank _).symm
    _ = Text.words text := by rw [← whole]

theorem languageOfLine?_eq (spaced : Text.Spaced words command) :
    languageOfLine? ('#' :: '!' :: command) =
      (interpreterOf? words).bind languageOfInterpreter? := by
  rw [languageOfLine?, words_trim, spaced.words_eq]

/-- Whatever else stands on the line, it is in the language of the program that is started. -/
theorem languageOfLine?_of_selects (spaced : Text.Spaced words command)
    (selects : Selects words word) (isName : IsProgramName name) (starts : Starts word name) :
    languageOfLine? ('#' :: '!' :: command) = interpreters.languageOf? (String.ofList name) := by
  rw [languageOfLine?_eq spaced, interpreterOf?_of_selects selects, Option.bind_some,
    languageOfInterpreter?, isName.eq_dropVersion starts]

end Selection

/-! ## The listed interpreters -/

section Listed

variable {language name : String} {word : Text}

theorem isProgramName_of_lists (listed : interpreters.Lists language name) :
    IsProgramName name.toList := by
  obtain ⟨names, entry, member⟩ := listed
  have each : ∀ entry ∈ interpreters, ∀ name ∈ entry.2, '/' ∉ name.toList ∧
      name.toList.getLast?.all (fun c => !(c.isDigit || c = '.')) = true := by
    decide
  obtain ⟨plain, unversioned⟩ := each _ entry name member
  refine ⟨plain, ?_⟩
  intro c last
  rw [last] at unversioned
  simpa using unversioned

theorem not_isEnv_of_starts (listed : interpreters.Lists language name)
    (starts : Starts word name.toList) : ¬ IsEnv word := by
  intro isEnv
  have same := (isProgramName_of_lists listed).eq_dropVersion starts
  rw [baseName_eq_env_iff.mpr isEnv] at same
  have unlisted : interpreters.languageOf? (String.ofList (dropVersion "env".toList)) = none := by
    decide
  rw [same, String.ofList_toList] at unlisted
  exact Listing.languageOf?_eq_none_iff.mp unlisted language listed

/-- A first line is in the language of an interpreter just by its name, wherever the interpreter
lies, whatever its version is and however the line is spaced: if it is the first word, with any
arguments behind it, or if it comes behind `env` and words that begin with a hyphen, and does not
begin with one itself.  A line that does not begin with `#!` is in no language, and neither is one
that selects no word, or a word whose one name is not listed. -/
theorem interpreter_is_known_by_its_name :
    (∀ language name, interpreters.Lists language name → ∀ word, Starts word name.toList →
      (∀ arguments command, Text.Spaced (word :: arguments) command →
        languageOfLine? ('#' :: '!' :: command) = some language) ∧
      ∀ env options arguments command, IsEnv env →
        (∀ option ∈ options, option.head? = some '-') → word.head? ≠ some '-' →
          Text.Spaced (env :: options ++ word :: arguments) command →
            languageOfLine? ('#' :: '!' :: command) = some language) ∧
    (∀ line, ¬ ['#', '!'] <+: line → languageOfLine? line = none) ∧
    (∀ command words, Text.Spaced words command →
      ((∀ word, ¬ Selects words word) → languageOfLine? ('#' :: '!' :: command) = none) ∧
      ∀ word, Selects words word →
        ∃ name, (∀ other, IsProgramName other ∧ Starts word other ↔ other = name) ∧
          ((∀ language, ¬ interpreters.Lists language (String.ofList name)) →
            languageOfLine? ('#' :: '!' :: command) = none)) := by
  refine ⟨?_, ?_, ?_⟩
  · intro language name listed word starts
    have isName := isProgramName_of_lists listed
    have known : interpreters.languageOf? (String.ofList name.toList) = some language := by
      rw [String.ofList_toList]
      exact isUnambiguous_interpreters.languageOf?_eq_some_iff.mpr listed
    constructor
    · intro arguments command spaced
      have selects : Selects (word :: arguments) word := .first (not_isEnv_of_starts listed starts)
      rw [languageOfLine?_of_selects spaced selects isName starts, known]
    · intro env options arguments command isEnv areOptions notOption spaced
      have selects : Selects (env :: options ++ word :: arguments) word :=
        .behindEnv isEnv areOptions notOption
      rw [languageOfLine?_of_selects spaced selects isName starts, known]
  · intro line unmarked
    unfold languageOfLine?
    split
    · next command => exact absurd ⟨command, rfl⟩ unmarked
    · rfl
  · intro command words spaced
    constructor
    · intro nothing
      have unselected : interpreterOf? words = none :=
        Classical.not_not.mp (mt exists_selects (not_exists.mpr nothing))
      rw [languageOfLine?_eq spaced, unselected, Option.bind_none]
    · intro word selects
      refine ⟨dropVersion (baseName word), fun _ => isProgramName_and_starts_iff, ?_⟩
      intro unlisted
      obtain ⟨isName, starts⟩ := (@isProgramName_and_starts_iff word _).mpr rfl
      rw [languageOfLine?_of_selects spaced selects isName starts]
      exact Listing.languageOf?_eq_none_iff.mpr unlisted

/-- A version of an interpreter behind `env` with an option, a tabulator, and a second name. -/
theorem interpreter_behind_env_is_known :
    interpreters.Lists "Python" "python" ∧
      Starts "/opt/python3.11".toList "python".toList ∧ IsEnv "/usr/bin/env".toList ∧
      Text.Spaced ["/usr/bin/env".toList, "-S".toList, "/opt/python3.11".toList, "ruby".toList]
        " /usr/bin/env -S\t/opt/python3.11 ruby".toList ∧
      languageOfLine? "#! /usr/bin/env -S\t/opt/python3.11 ruby".toList = some "Python" := by
  have listed : interpreters.Lists "Python" "python" := ⟨["python", "pypy"], by decide, by decide⟩
  have starts : Starts "/opt/python3.11".toList "python".toList :=
    ⟨"/opt/".toList, "3.11".toList, by decide, .inr (by decide), by simp [IsVersion]⟩
  have isEnv : IsEnv "/usr/bin/env".toList := baseName_eq_env_iff.mp (by decide)
  have words : Text.words " /usr/bin/env -S\t/opt/python3.11 ruby".toList =
      ["/usr/bin/env".toList, "-S".toList, "/opt/python3.11".toList, "ruby".toList] := by
    decide
  have spaced := Text.words_eq_iff.mp words
  refine ⟨listed, starts, isEnv, spaced, ?_⟩
  exact (interpreter_is_known_by_its_name.1 "Python" "python" listed _ starts).2 _ ["-S".toList] _ _
    isEnv (by simp) (by decide) spaced

end Listed

end LineTally.Shebang
