import LineTally.Proofs.Language.Listing
import LineTally.Proofs.Path.Joining
import LineTally.Proofs.Lists
import LineTally.Proofs.Text.LossyDecoding
import LineTally.Proofs.Text.LowerCase

/-!
# Languages by file name

The language of a path depends on its file name alone, and of a name in two ways: on the whole
name, and on what stands behind its last dot, if something comes before that dot
(`languageOfPath?_of_extension`, `languageOfPath?_of_no_extension`).  Both are looked at in lower
case, and the whole name goes first (`languageOfPath?_eq_some_iff`).
-/

namespace LineTally

/-! ## Extensions -/

namespace Path

variable {first ending name : Bytes}

theorem extensionOf?_append (stops : StopsAt (· ≠ dot) first) (undotted : dot ∉ ending) :
    extensionOf? (first ++ ending) = if first.dropLast = [] then none else some ending := by
  have goesOn : ∀ b ∈ ending, decide (b ≠ dot) = true := fun _ member =>
    decide_eq_true (ne_of_mem_of_not_mem member undotted)
  have behind : ((first ++ ending).reverse.takeWhile (· ≠ dot)).reverse = ending :=
    rtakeWhile_append stops goesOn
  have stem : (first ++ ending).take ((first ++ ending).length - ending.length - 1) =
      first.dropLast := by
    rw [List.length_append, Nat.add_sub_cancel, List.take_append_of_le_length (Nat.sub_le _ _),
      List.dropLast_eq_take]
  rw [extensionOf?]
  simp only [behind, stem, List.isEmpty_iff]

theorem extensionOf?_append_cons (stem : Bytes) (undotted : dot ∉ ending) :
    extensionOf? (stem ++ dot :: ending) = if stem = [] then none else some ending := by
  have stops : StopsAt (· ≠ dot) (stem ++ [dot]) := stopsAt_concat (by decide)
  have cut := extensionOf?_append stops undotted
  rwa [List.append_assoc, List.singleton_append, List.dropLast_concat] at cut

theorem extensionOf?_of_not_mem (undotted : dot ∉ name) : extensionOf? name = none :=
  extensionOf?_append stopsAt_nil undotted

/-- A path has the file name that stands behind its last slash. -/
theorem fileName?_append {place : Bytes} (leads : place = [] ∨ place.getLast? = some slash)
    (isName : IsName name) : fileName? ⟨place ++ name⟩ = some name := by
  have notOpen : ¬ EndsOpen ⟨place⟩ := by
    rintro ⟨notEmpty, notSlash⟩
    exact leads.elim notEmpty notSlash
  rw [← join_of_not_endsOpen notOpen name]
  exact fileName?_join ⟨place⟩ isName

end Path

namespace FileName

open Utf8 (encode encode_append mem_encode_iff)

/-- The name has this extension: what stands behind its last dot, if something comes before. -/
def HasExtension (name ending : Text) : Prop :=
  ∃ stem, name = stem ++ '.' :: ending ∧ stem ≠ [] ∧ '.' ∉ ending

theorem dot_mem_encode_iff {text : Text} : dot ∈ encode text ↔ '.' ∈ text :=
  mem_encode_iff rfl

theorem HasExtension.extensionOf?_encode {name ending : Text} (has : HasExtension name ending) :
    Path.extensionOf? (encode name) = some (encode ending) := by
  obtain ⟨stem, rfl, notEmpty, undotted⟩ := has
  have written : encode stem ≠ [] := by
    intro empty
    exact notEmpty (Utf8.encode_injective empty)
  have cut := Path.extensionOf?_append_cons (encode stem) (dot_mem_encode_iff.not.mpr undotted)
  rw [if_neg written] at cut
  rw [encode_append]
  exact cut

theorem HasExtension.unique {name ending other : Text} (has : HasExtension name ending)
    (has' : HasExtension name other) : ending = other := by
  have same := has.extensionOf?_encode.symm.trans has'.extensionOf?_encode
  exact Utf8.encode_injective (Option.some.inj same)

theorem extensionOf?_encode_eq_none {name : Text} (none : ∀ ending, ¬ HasExtension name ending) :
    Path.extensionOf? (encode name) = Option.none := by
  by_cases dotted : '.' ∈ name
  · obtain ⟨stem, ending, rfl, undotted⟩ := exists_last_cut dotted
    have empty : stem = [] := by
      by_contra notEmpty
      exact none ending ⟨stem, rfl, notEmpty, undotted⟩
    rw [empty]
    exact Path.extensionOf?_append_cons [] (dot_mem_encode_iff.not.mpr undotted)
  · exact Path.extensionOf?_of_not_mem (dot_mem_encode_iff.not.mpr dotted)

/-! ## The language of a path -/

section Paths

variable {path : Path} {name ending : Text}

theorem languageOfPath?_of_fileName (named : path.fileName? = some (encode name)) :
    languageOfPath? path =
      (languageOfName? (Text.lower name)).or
        (((Path.extensionOf? (encode name)).bind Utf8.decode?).bind fun ending =>
          languageOfExtension? (Text.lower ending)) := by
  simp only [languageOfPath?, Path.extension?, named, Option.bind_some, Utf8.decode?_encode,
    Option.bind_eq_bind]
  cases languageOfName? (Text.lower name) with
  | none => rw [Option.none_or]
  | some language => rw [Option.some_or]

theorem languageOfPath?_of_extension (named : path.fileName? = some (encode name))
    (has : HasExtension name ending) :
    languageOfPath? path =
      (languageOfName? (Text.lower name)).or (languageOfExtension? (Text.lower ending)) := by
  rw [languageOfPath?_of_fileName named, has.extensionOf?_encode, Option.bind_some,
    Utf8.decode?_encode, Option.bind_some]

theorem languageOfPath?_of_no_extension (named : path.fileName? = some (encode name))
    (none : ∀ ending, ¬ HasExtension name ending) :
    languageOfPath? path = languageOfName? (Text.lower name) := by
  rw [languageOfPath?_of_fileName named, extensionOf?_encode_eq_none none, Option.bind_none,
    Option.bind_none, Option.or_none]

theorem languageOfPath?_of_unnamed (unnamed : ∀ name, path.fileName? ≠ some (encode name)) :
    languageOfPath? path = none := by
  have undecoded : path.fileName?.bind Utf8.decode? = none := by
    apply Option.eq_none_iff_forall_ne_some.mpr
    intro name decoded
    obtain ⟨bytes, named, isText⟩ := Option.bind_eq_some_iff.mp decoded
    exact unnamed name (Utf8.decode?_eq_some_iff.mp isText ▸ named)
  rw [languageOfPath?, undecoded]
  rfl

end Paths

theorem languageOfName?_eq_none_iff {name : Text} :
    languageOfName? name = none ↔
      (∀ language, ¬ wholeNames.Lists language (String.ofList name)) ∧
        ¬ "dockerfile".toList <+: name := by
  rw [← Listing.languageOf?_eq_none_iff, ← List.isPrefixOf_iff_prefix, languageOfName?]
  generalize "dockerfile".toList = beginning
  cases wholeNames.languageOf? (String.ofList name) with
  | some language => simp
  | none => simp

/-! ## Lower case -/

/-- As far as a listing in ASCII goes, one way to write a text in lower case is as good as
another. -/
theorem languageOf?_of_lowers {listing : Listing} (unambiguous : listing.IsUnambiguous)
    (ascii : ∀ entry ∈ listing, ∀ spelling ∈ entry.2, Text.IsAscii spelling.toList)
    {text lowered : Text} (lowers : Lowers text lowered) :
    listing.languageOf? (String.ofList lowered) =
      listing.languageOf? (String.ofList (Text.lower text)) := by
  apply Option.ext
  intro language
  rw [unambiguous.languageOf?_eq_some_iff, unambiguous.languageOf?_eq_some_iff]
  have spelled (spelling : String) (inAscii : Text.IsAscii spelling.toList) :
      String.ofList lowered = spelling ↔ String.ofList (Text.lower text) = spelling := by
    have characters : String.ofList spelling.toList = spelling := String.ofList_toList
    rw [← characters, String.ofList_inj, String.ofList_inj]
    exact lowers.eq_iff inAscii
  constructor
  · rintro ⟨spellings, entry, member⟩
    have same := (spelled _ (ascii _ entry _ member)).mp rfl
    exact ⟨spellings, entry, same ▸ member⟩
  · rintro ⟨spellings, entry, member⟩
    have same := (spelled _ (ascii _ entry _ member)).mpr rfl
    exact ⟨spellings, entry, same ▸ member⟩

theorem languageOfName?_of_lowers {name lowered : Text} (lowers : Lowers name lowered) :
    languageOfName? lowered = languageOfName? (Text.lower name) := by
  have listed := languageOf?_of_lowers isUnambiguous_wholeNames (by decide) lowers
  have begins : "dockerfile".toList.isPrefixOf lowered =
      "dockerfile".toList.isPrefixOf (Text.lower name) := by
    rw [Bool.eq_iff_iff, List.isPrefixOf_iff_prefix, List.isPrefixOf_iff_prefix]
    exact lowers.prefix_iff (by decide) (by decide)
  rw [languageOfName?, languageOfName?, listed, begins]

theorem languageOfExtension?_of_lowers {ending lowered : Text} (lowers : Lowers ending lowered) :
    languageOfExtension? lowered = languageOfExtension? (Text.lower ending) :=
  languageOf?_of_lowers isUnambiguous_extensions (by decide +kernel) lowers

/-! ## The name first, then the extension -/

/-- The whole file name tells the language. -/
def TellsByName (path : Path) (language : String) : Prop :=
  ∃ name lowered, path.fileName? = some (encode name) ∧ Lowers name lowered ∧
    languageOfName? lowered = some language

/-- The extension tells the language. -/
def TellsByExtension (path : Path) (language : String) : Prop :=
  ∃ name ending lowered, path.fileName? = some (encode name) ∧ HasExtension name ending ∧
    Lowers ending lowered ∧ languageOfExtension? lowered = some language

section Tells

variable {path : Path} {name : Text} {language : String}

theorem eq_of_fileName? {other : Text} (named : path.fileName? = some (encode name))
    (named' : path.fileName? = some (encode other)) : other = name :=
  Utf8.encode_injective (Option.some.inj (named'.symm.trans named))

theorem tellsByName_iff (named : path.fileName? = some (encode name)) :
    TellsByName path language ↔ languageOfName? (Text.lower name) = some language := by
  constructor
  · rintro ⟨other, lowered, named', lowers, known⟩
    obtain rfl := eq_of_fileName? named named'
    rw [← languageOfName?_of_lowers lowers, known]
  · intro known
    exact ⟨name, _, named, .lower name, known⟩

theorem tellsByExtension_iff (named : path.fileName? = some (encode name)) :
    TellsByExtension path language ↔
      ∃ ending, HasExtension name ending ∧
        languageOfExtension? (Text.lower ending) = some language := by
  constructor
  · rintro ⟨other, ending, lowered, named', has, lowers, known⟩
    obtain rfl := eq_of_fileName? named named'
    rw [languageOfExtension?_of_lowers lowers] at known
    exact ⟨ending, has, known⟩
  · rintro ⟨ending, has, known⟩
    exact ⟨name, ending, _, named, has, .lower ending, known⟩

/-- The language of a path is that of the whole name, or if that tells none, of the extension. -/
theorem languageOfPath?_eq_some_iff :
    languageOfPath? path = some language ↔
      TellsByName path language ∨
        (∀ other, ¬ TellsByName path other) ∧ TellsByExtension path language := by
  by_cases text : ∃ name, path.fileName? = some (encode name)
  · obtain ⟨name, named⟩ := text
    have untold : (∀ other, ¬ TellsByName path other) ↔
        languageOfName? (Text.lower name) = none := by
      simp only [tellsByName_iff named]
      exact Option.eq_none_iff_forall_ne_some.symm
    rw [untold, tellsByName_iff named, tellsByExtension_iff named]
    by_cases has : ∃ ending, HasExtension name ending
    · obtain ⟨ending, has⟩ := has
      rw [languageOfPath?_of_extension named has, Option.or_eq_some_iff]
      refine or_congr_right (and_congr_right fun _ => ⟨fun known => ⟨ending, has, known⟩, ?_⟩)
      rintro ⟨other, has', known⟩
      obtain rfl := has.unique has'
      exact known
    · rw [languageOfPath?_of_no_extension named (not_exists.mp has)]
      constructor
      · exact .inl
      · rintro (known | ⟨_, ending, has', _⟩)
        · exact known
        · exact absurd ⟨ending, has'⟩ has
  · have unnamed := not_exists.mp text
    rw [languageOfPath?_of_unnamed unnamed]
    constructor
    · exact fun impossible => nomatch impossible
    · rintro (⟨name, _, named, _⟩ | ⟨_, name, _, _, named, _⟩)
      · exact absurd named (unnamed name)
      · exact absurd named (unnamed name)

theorem languageOfPath?_eq_none_iff :
    languageOfPath? path = none ↔
      (∀ other, ¬ TellsByName path other) ∧ ∀ other, ¬ TellsByExtension path other := by
  rw [Option.eq_none_iff_forall_ne_some]
  constructor
  · intro unknown
    have untold : ∀ other, ¬ TellsByName path other := fun other tells =>
      unknown other (languageOfPath?_eq_some_iff.mpr (.inl tells))
    exact ⟨untold, fun other tells =>
      unknown other (languageOfPath?_eq_some_iff.mpr (.inr ⟨untold, tells⟩))⟩
  · rintro ⟨notByName, notByExtension⟩ language known
    rcases languageOfPath?_eq_some_iff.mp known with byName | ⟨-, byExtension⟩
    · exact notByName language byName
    · exact notByExtension language byExtension

end Tells

/-! ## Letters in another case -/

theorem HasExtension.of_sameLetters {first second ending : Text} (has : HasExtension first ending)
    (same : SameLetters first second) :
    ∃ ending', HasExtension second ending' ∧ SameLetters ending ending' := by
  obtain ⟨stem, rfl, notEmpty, undotted⟩ := has
  obtain ⟨stem', ending', rfl, sameStem, sameEnding⟩ := same.exists_cut (by decide)
  refine ⟨ending', ⟨stem', rfl, ?_, (sameEnding.mem_iff (by decide)).not.mp undotted⟩, sameEnding⟩
  rintro rfl
  exact notEmpty (List.map_eq_nil_iff.mp sameStem)

/-- The case of letters of ASCII does not matter. -/
theorem languageOfPath?_of_sameLetters {path other : Path} {first second : Text}
    (named : path.fileName? = some (encode first)) (named' : other.fileName? = some (encode second))
    (same : SameLetters first second) : languageOfPath? path = languageOfPath? other := by
  by_cases has : ∃ ending, HasExtension first ending
  · obtain ⟨ending, has⟩ := has
    obtain ⟨ending', has', sameEnding⟩ := has.of_sameLetters same
    rw [languageOfPath?_of_extension named has, languageOfPath?_of_extension named' has',
      same.lower_eq, sameEnding.lower_eq]
  · have hasNot : ∀ ending, ¬ HasExtension second ending := by
      intro ending has'
      obtain ⟨ending', has'', _⟩ := has'.of_sameLetters same.symm
      exact has ⟨ending', has''⟩
    rw [languageOfPath?_of_no_extension named (not_exists.mp has),
      languageOfPath?_of_no_extension named' hasNot, same.lower_eq]

/-! ## File names in directories -/

/-- A text that can be the name of a file. -/
def IsFileName (name : Text) : Prop :=
  name ≠ [] ∧ name ≠ ['.'] ∧ name ≠ ['.', '.'] ∧ '/' ∉ name

instance : DecidablePred IsFileName :=
  fun _ => inferInstanceAs (Decidable (_ ∧ _))

theorem IsFileName.isName_encode {name : Text} (isFileName : IsFileName name) :
    IsName (encode name) := by
  obtain ⟨notEmpty, notDot, notDots, unbroken⟩ := isFileName
  have injective := Utf8.encode_injective
  exact ⟨fun empty => notEmpty (injective empty), fun oneDot => notDot (injective oneDot),
    fun twoDots => notDots (injective twoDots), (mem_encode_iff rfl).not.mpr unbroken⟩

theorem isFileName_append_cons {stem ending : Text} (notEmpty : stem ≠ []) (unbroken : '/' ∉ stem)
    (someEnding : ending ≠ []) (noSlash : '/' ∉ ending) : IsFileName (stem ++ '.' :: ending) := by
  have long : 3 ≤ (stem ++ '.' :: ending).length := by
    have before := List.length_pos_iff.mpr notEmpty
    have behind := List.length_pos_iff.mpr someEnding
    rw [List.length_append, List.length_cons]
    omega
  have longer {short : Text} (few : short.length < 3) : stem ++ '.' :: ending ≠ short := by
    rintro rfl
    omega
  refine ⟨longer (by decide), longer (by decide), longer (by decide), ?_⟩
  simp only [List.mem_append, List.mem_cons, not_or]
  exact ⟨unbroken, by decide, noSlash⟩

/-- What is listed as an extension can stand behind a dot, and is in lower case. -/
theorem isExtension_of_lists {language ending : String}
    (listed : extensions.Lists language ending) :
    '.' ∉ ending.toList ∧ '/' ∉ ending.toList ∧ ending.toList ≠ [] ∧
      Text.lower ending.toList = ending.toList := by
  obtain ⟨endings, entry, member⟩ := listed
  have each : ∀ entry ∈ extensions, ∀ ending ∈ entry.2, '.' ∉ ending.toList ∧
      '/' ∉ ending.toList ∧ ending.toList ≠ [] ∧ Text.lower ending.toList = ending.toList := by
    decide +kernel
  exact each _ entry ending member

/-- The directory of a file and the case of letters of ASCII in its name do not matter for its
language.  A name with something before the dot of a known extension is in the language of that
extension, unless the whole name in lower case, in whatever way Unicode may write it, is one of
those that are known, or begins with `dockerfile`. -/
theorem language_is_known_by_file_name :
    (∀ place first second, place = [] ∨ place.getLast? = some slash → IsFileName first →
      IsFileName second → SameLetters first second →
        languageOfPath? ⟨place ++ encode first⟩ = languageOfPath? (Path.ofText second)) ∧
    ∀ language ending, extensions.Lists language ending → ∀ place stem,
      place = [] ∨ place.getLast? = some slash → stem ≠ [] → '/' ∉ stem →
        ∀ lowered, Lowers (stem ++ '.' :: ending.toList) lowered →
          (∀ other, ¬ wholeNames.Lists other (String.ofList lowered)) →
          ¬ "dockerfile".toList <+: lowered →
            languageOfPath? ⟨place ++ encode (stem ++ '.' :: ending.toList)⟩ = some language := by
  constructor
  · intro place first second leads isFirst isSecond same
    have named := Path.fileName?_append leads isFirst.isName_encode
    have named' := Path.fileName?_append (.inl rfl) isSecond.isName_encode
    exact languageOfPath?_of_sameLetters named named' same
  · intro language ending listed place stem leads notEmpty unbroken lowered lowers unlisted begins
    obtain ⟨undotted, noSlash, someEnding, isLower⟩ := isExtension_of_lists listed
    have isFileName := isFileName_append_cons notEmpty unbroken someEnding noSlash
    have has : HasExtension (stem ++ '.' :: ending.toList) ending.toList :=
      ⟨stem, rfl, notEmpty, undotted⟩
    have named := Path.fileName?_append leads isFileName.isName_encode
    have unknown := languageOfName?_eq_none_iff.mpr ⟨unlisted, begins⟩
    rw [languageOfName?_of_lowers lowers] at unknown
    rw [languageOfPath?_of_extension named has, unknown, Option.none_or, isLower,
      languageOfExtension?, String.ofList_toList]
    exact isUnambiguous_extensions.languageOf?_eq_some_iff.mpr listed

/-- A name in two cases, and one that Unicode writes with a character more in lower case. -/
theorem names_in_other_cases_are_known :
    (encode "src/".toList).getLast? = some slash ∧
      IsFileName "Main.RS".toList ∧ IsFileName "mAIN.rs".toList ∧
      SameLetters "Main.RS".toList "mAIN.rs".toList ∧
      languageOfPath? ⟨encode "src/".toList ++ encode "Main.RS".toList⟩ =
        languageOfPath? (Path.ofText "mAIN.rs".toList) ∧
      extensions.Lists "C++" "c++" ∧
      Lowers ("\u0130".toList ++ '.' :: "c++".toList) "i\u0307.c++".toList ∧
      languageOfPath? ⟨encode "src/".toList ++ encode ("\u0130".toList ++ '.' :: "c++".toList)⟩ =
        some "C++" := by
  have leads : (encode "src/".toList).getLast? = some slash := by decide
  have isFirst : IsFileName "Main.RS".toList := by decide
  have isSecond : IsFileName "mAIN.rs".toList := by decide
  have same : SameLetters "Main.RS".toList "mAIN.rs".toList := by decide
  have listed : extensions.Lists "C++" "c++" :=
    ⟨["cpp", "cc", "cxx", "c++", "h++"], by decide +kernel, by decide⟩
  have lowers : Lowers ("\u0130".toList ++ '.' :: "c++".toList) "i\u0307.c++".toList :=
    .cons .dotted (.cons (.ascii (by decide)) (.cons (.ascii (by decide))
      (.cons (.ascii (by decide)) (.cons (.ascii (by decide)) .nil))))
  refine ⟨leads, isFirst, isSecond, same, ?_, listed, lowers, ?_⟩
  · exact language_is_known_by_file_name.1 _ _ _ (.inr leads) isFirst isSecond same
  · apply language_is_known_by_file_name.2 _ _ listed _ _ (.inr leads) (by decide) (by decide) _
      lowers
    · exact Listing.languageOf?_eq_none_iff.mp (by decide)
    · decide

end FileName

end LineTally
