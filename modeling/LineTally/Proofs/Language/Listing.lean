import LineTally.Language.Detection
import LineTally.Language.Table

/-!
# Known spellings

A listing in which no spelling stands twice gives each spelling its one language
(`IsUnambiguous.languageOf?_eq_some_iff`).  None of the listings has a spelling twice, and every
language that they know has a profile (`exists_profile_of_languageOf?`).
-/

namespace LineTally

namespace Listing

variable {listing : Listing} {language spelling : String}

/-- The language is listed with this spelling. -/
def Lists (listing : Listing) (language spelling : String) : Prop :=
  ∃ spellings, (language, spellings) ∈ listing ∧ spelling ∈ spellings

/-- No two entries share a spelling. -/
def IsUnambiguous (listing : Listing) : Prop :=
  listing.Pairwise fun entry other => ∀ spelling ∈ entry.2, spelling ∉ other.2

instance (listing : Listing) : Decidable listing.IsUnambiguous :=
  inferInstanceAs (Decidable (listing.Pairwise _))

theorem lists_of_languageOf? (known : listing.languageOf? spelling = some language) :
    listing.Lists language spelling := by
  obtain ⟨⟨language, spellings⟩, found, rfl⟩ := Option.map_eq_some_iff.mp known
  have member : spellings.contains spelling = true :=
    List.find?_some (p := fun entry : String × List String => entry.2.contains spelling) found
  exact ⟨spellings, List.mem_of_find?_eq_some found, List.contains_iff_mem.mp member⟩

theorem languageOf?_eq_none_iff :
    listing.languageOf? spelling = none ↔ ∀ language, ¬ listing.Lists language spelling := by
  rw [languageOf?, Option.map_eq_none_iff, List.find?_eq_none]
  constructor
  · rintro unknown language ⟨spellings, entry, member⟩
    exact unknown _ entry (List.contains_iff_mem.mpr member)
  · intro unlisted entry member listed
    exact unlisted entry.1 ⟨entry.2, member, List.contains_iff_mem.mp listed⟩

theorem IsUnambiguous.languageOf?_eq_some_iff (unambiguous : listing.IsUnambiguous) :
    listing.languageOf? spelling = some language ↔ listing.Lists language spelling := by
  refine ⟨lists_of_languageOf?, ?_⟩
  rintro ⟨spellings, entry, member⟩
  induction listing with
  | nil => contradiction
  | cons first rest inductionHypothesis =>
      obtain ⟨apart, others⟩ := List.pairwise_cons.mp unambiguous
      rcases List.mem_cons.mp entry with rfl | later
      · simp [languageOf?, member]
      · have elsewhere : spelling ∉ first.2 := fun here => apart _ later spelling here member
        have behind := inductionHypothesis others later
        simpa [languageOf?, elsewhere] using behind

end Listing

namespace Profile

variable {name : String} {profile : Profile}

theorem name_of_lookup (found : lookup name = some profile) : profile.name = name :=
  of_decide_eq_true (List.find?_some (p := fun profile : Profile => profile.name = name) found)

theorem mem_all_of_lookup (found : lookup name = some profile) : profile ∈ all :=
  List.mem_of_find?_eq_some found

end Profile

theorem isUnambiguous_wholeNames : FileName.wholeNames.IsUnambiguous := by
  decide

theorem isUnambiguous_extensions : FileName.extensions.IsUnambiguous := by
  decide +kernel

theorem isUnambiguous_interpreters : Shebang.interpreters.IsUnambiguous := by
  decide

/-- Every language that is listed anywhere has a profile. -/
theorem exists_profile_of_languageOf? {listing : Listing} {language spelling : String}
    (known : listing.languageOf? spelling = some language)
    (listed : listing ∈ [FileName.wholeNames, FileName.extensions, Shebang.interpreters]) :
    ∃ profile, Profile.lookup language = some profile := by
  obtain ⟨spellings, entry, _⟩ := Listing.lists_of_languageOf? known
  have profiled : ∀ listing ∈ [FileName.wholeNames, FileName.extensions, Shebang.interpreters],
      ∀ entry ∈ listing, (Profile.lookup entry.1).isSome = true := by
    decide +kernel
  exact Option.isSome_iff_exists.mp (profiled listing listed _ entry)

end LineTally
