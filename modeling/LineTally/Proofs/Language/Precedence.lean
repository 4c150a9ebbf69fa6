import LineTally.Proofs.Language.Opener

/-!
# Which opener counts

Of the delimiters that stand at a position the widest one counts.  Of two that are equally
wide it is a block opener before a quote, a quote before a line marker and that before a
single-character literal, and among those of one sort the one listed first.  So one candidate
beats every other, and `longestOpener` finds it (`longestOpener_eq_some_iff`).
-/

namespace LineTally

namespace Opener

/-- The sort of an opener, by precedence. -/
def rank : Opener → Nat
  | .block _ => 0
  | .quote _ => 1
  | .line _ => 2
  | .charLiteral _ => 3

/-- Where the opener is listed among those of its sort. -/
def index : Opener → Nat
  | .block index => index
  | .quote index => index
  | .line index => index
  | .charLiteral _ => 0

/-- One opener is listed before another. -/
def Before (first second : Opener) : Prop :=
  first.rank < second.rank ∨ first.rank = second.rank ∧ first.index < second.index

theorem Before.asymm {first second : Opener} (before : first.Before second) :
    ¬ second.Before first := by
  unfold Before at before ⊢
  omega

end Opener

namespace Profile

/-- A candidate, with its width, is wider than another, or as wide and listed before it. -/
def Beats (best other : Nat × Opener) : Prop :=
  other.1 < best.1 ∨ other.1 = best.1 ∧ best.2.Before other.2

theorem Beats.asymm {first second : Nat × Opener} (beats : Beats first second) :
    ¬ Beats second first := by
  rintro (wider | ⟨_, before⟩)
  · rcases beats with wider' | ⟨same, _⟩ <;> omega
  · rcases beats with wider | ⟨_, before'⟩
    · omega
    · exact before.asymm before'

theorem widest_eq_none_iff {candidates : List (Nat × Opener)} :
    widest candidates = none ↔ candidates = [] := by
  cases candidates with
  | nil => exact ⟨fun _ => rfl, fun _ => rfl⟩
  | cons candidate rest =>
      refine ⟨fun nothing => ?_, fun empty => absurd empty (List.cons_ne_nil _ _)⟩
      rw [widest] at nothing
      split at nothing
      · contradiction
      · split at nothing <;> contradiction

/-- What is found among candidates in order beats every other. -/
theorem beats_of_widest {candidates : List (Nat × Opener)} {best : Nat × Opener}
    (sorted : candidates.Pairwise fun first second => first.2.Before second.2)
    (found : widest candidates = some best) :
    ∀ other ∈ candidates, other = best ∨ Beats best other := by
  induction candidates generalizing best with
  | nil => exact fun other member => absurd member List.not_mem_nil
  | cons candidate rest inductionHypothesis =>
      obtain ⟨before, restSorted⟩ := List.pairwise_cons.mp sorted
      intro other member
      rw [widest] at found
      cases deeper : widest rest with
      | none =>
          rw [widest_eq_none_iff.mp deeper] at found member
          cases found
          exact .inl (List.mem_singleton.mp member)
      | some bestOfRest =>
          have beaten := inductionHypothesis restSorted deeper
          simp only [deeper] at found
          split at found
          · next wider =>
              cases found
              rcases List.mem_cons.mp member with rfl | behind
              · exact .inr (.inl wider)
              · exact beaten other behind
          · next notWider =>
              cases found
              rcases List.mem_cons.mp member with same | behind
              · exact .inl same
              · right
                have within : other.1 ≤ bestOfRest.1 := by
                  rcases beaten other behind with rfl | wider | ⟨same, _⟩ <;> omega
                rcases Nat.lt_or_ge other.1 candidate.1 with narrower | asWide
                · exact .inl narrower
                · exact .inr ⟨by omega, before other behind⟩

/-- Delimiters of one sort are listed in the order of their indices. -/
theorem pairwise_map_zipIdx {α : Type} (entries : List α) (delimiter : α → Text)
    (opener : Nat → Opener) (ordered : ∀ i j, i < j → (opener i).Before (opener j)) :
    (entries.zipIdx.map fun (entry, i) => (delimiter entry, opener i)).Pairwise
      fun first second => first.2.Before second.2 := by
  have indices : (entries.zipIdx.map Prod.snd).Pairwise (· < ·) := by
    rw [List.zipIdx_map_snd]
    exact List.pairwise_lt_range'
  exact List.pairwise_map.mpr ((List.pairwise_map.mp indices).imp (ordered _ _))

theorem pairwise_openers (profile : Profile) :
    profile.openers.Pairwise fun first second => first.2.Before second.2 := by
  have blocks := pairwise_map_zipIdx profile.blockComments BlockComment.opener .block
    fun _ _ below => .inr ⟨rfl, below⟩
  have quotes := pairwise_map_zipIdx profile.quotes Quote.delimiter .quote
    fun _ _ below => .inr ⟨rfl, below⟩
  have lines := pairwise_map_zipIdx profile.lineComments id .line
    fun _ _ below => .inr ⟨rfl, below⟩
  refine List.pairwise_append.mpr ⟨List.pairwise_append.mpr ⟨blocks, quotes, ?_⟩, lines, ?_⟩
  · intro first isBlock second isQuote
    obtain ⟨_, _, rfl⟩ := List.mem_map.mp isBlock
    obtain ⟨_, _, rfl⟩ := List.mem_map.mp isQuote
    exact .inl Nat.one_pos
  · intro first isFirst second isLine
    obtain ⟨_, _, rfl⟩ := List.mem_map.mp isLine
    rcases List.mem_append.mp isFirst with isBlock | isQuote
    · obtain ⟨_, _, rfl⟩ := List.mem_map.mp isBlock
      exact .inl Nat.two_pos
    · obtain ⟨_, _, rfl⟩ := List.mem_map.mp isQuote
      exact .inl (Nat.lt_succ_self 1)

/-- Candidates are listed in the order of their precedence. -/
theorem pairwise_candidates (profile : Profile) (text : Text) :
    (profile.candidates text).Pairwise fun first second => first.2.Before second.2 := by
  refine List.pairwise_append.mpr ⟨?_, ?_, ?_⟩
  · refine profile.pairwise_openers.filterMap _ ?_
    rintro ⟨delimiter, opener⟩ ⟨delimiter', opener'⟩ before chosen isChosen chosen' isChosen'
    simp only [Option.ite_none_right_eq_some, Option.some.injEq] at isChosen isChosen'
    rw [← isChosen.2, ← isChosen'.2]
    exact before
  · cases profile.charLiteral.bind (CharLiteral.width? · text) with
    | none => exact .nil
    | some width => exact List.pairwise_singleton _ _
  · intro chosen isChosen literal isLiteral
    obtain ⟨⟨delimiter, opener⟩, listed, chosenEq⟩ := List.mem_filterMap.mp isChosen
    simp only [Option.ite_none_right_eq_some, Option.some.injEq] at chosenEq
    obtain ⟨width, _, rfl⟩ := Option.map_eq_some_iff.mp (Option.mem_toList.mp isLiteral)
    rw [← chosenEq.2]
    rcases mem_openers_iff.mp listed with ⟨_, _, _, _, rfl⟩ | ⟨_, _, _, _, rfl⟩ | ⟨_, _, rfl⟩ <;>
      exact .inl (by simp [Opener.rank])

/-- What is found is a delimiter that stands there, with its width, and it beats every other
delimiter that stands there. -/
theorem longestOpener_eq_some_iff {profile : Profile} {text : Text} {width : Nat}
    {opener : Opener} :
    profile.longestOpener text = some (width, opener) ↔
      (∃ opened, profile.Opens text opener opened ∧ width = opened.byteSize) ∧
        ∀ other opened, profile.Opens text other opened →
          (opened.byteSize, other) = (width, opener) ∨
            Beats (width, opener) (opened.byteSize, other) := by
  have beaten {best : Nat × Opener} (found : profile.longestOpener text = some best) :
      ∀ other opened, profile.Opens text other opened →
        (opened.byteSize, other) = best ∨ Beats best (opened.byteSize, other) :=
    fun other opened opens => beats_of_widest (profile.pairwise_candidates text) found _
      (mem_candidates_iff.mpr ⟨opened, opens, rfl⟩)
  constructor
  · intro found
    exact ⟨mem_candidates_iff.mp (mem_of_widest found), beaten found⟩
  · rintro ⟨⟨opened, opens, rfl⟩, best⟩
    cases found : profile.longestOpener text with
    | none =>
        have member := mem_candidates_iff.mpr ⟨opened, opens, rfl⟩
        rw [widest_eq_none_iff.mp found] at member
        contradiction
    | some best' =>
        obtain ⟨width', opener'⟩ := best'
        obtain ⟨opened', opens', rfl⟩ := mem_candidates_iff.mp (mem_of_widest found)
        rcases best opener' opened' opens' with same | beats
        · rw [same]
        · rcases beaten found opener opened opens with same | beats'
          · rw [← same]
          · exact absurd beats' beats.asymm

/-- To beat a candidate is to be at least as wide, and to be listed before it if it is as
wide. -/
theorem eq_or_beats_iff {width other : Nat} {opener rival : Opener} :
    (other, rival) = (width, opener) ∨ Beats (width, opener) (other, rival) ↔
      other ≤ width ∧ (other = width → rival = opener ∨ opener.Before rival) := by
  rw [Prod.mk.injEq, Beats]
  constructor
  · rintro (⟨rfl, rfl⟩ | narrower | ⟨same, before⟩)
    · exact ⟨Nat.le_refl _, fun _ => .inl rfl⟩
    · exact ⟨Nat.le_of_lt narrower, fun same => absurd same (Nat.ne_of_lt narrower)⟩
    · exact ⟨Nat.le_of_eq same, fun _ => .inr before⟩
  · rintro ⟨within, asWide⟩
    rcases Nat.lt_or_eq_of_le within with narrower | same
    · exact .inr (.inl narrower)
    · rcases asWide same with rfl | before
      · exact .inl ⟨same, rfl⟩
      · exact .inr (.inr ⟨same, before⟩)

theorem longestOpener_eq_none_iff {profile : Profile} {text : Text} :
    profile.longestOpener text = none ↔ ∀ opener opened, ¬ profile.Opens text opener opened := by
  rw [longestOpener, widest_eq_none_iff, List.eq_nil_iff_forall_not_mem]
  constructor
  · intro nothing opener opened opens
    exact nothing _ (mem_candidates_iff.mpr ⟨opened, opens, rfl⟩)
  · rintro nothing ⟨width, opener⟩ member
    obtain ⟨opened, opens, _⟩ := mem_candidates_iff.mp member
    exact nothing opener opened opens

/-- Nothing opens at a position just if no delimiter stands there.  Otherwise it is the one
that is listed first among the widest that stand there. -/
theorem matchOpener_is_first_of_widest (profile : Profile) (rest : Text) :
    (profile.matchOpener rest = none ↔ ∀ opener opened, ¬ profile.Opens rest opener opened) ∧
      ∀ opener, profile.matchOpener rest = some opener ↔
        ∃ opened, profile.Opens rest opener opened ∧
          ∀ rival text, profile.Opens rest rival text →
            text.byteSize ≤ opened.byteSize ∧
              (text.byteSize = opened.byteSize → rival = opener ∨ opener.Before rival) := by
  constructor
  · rw [matchOpener, Option.map_eq_none_iff]
    exact longestOpener_eq_none_iff
  · intro opener
    constructor
    · intro matched
      obtain ⟨⟨width, _⟩, found, rfl⟩ := Option.map_eq_some_iff.mp matched
      obtain ⟨⟨opened, opens, rfl⟩, best⟩ := longestOpener_eq_some_iff.mp found
      refine ⟨opened, opens, fun rival text opensToo => ?_⟩
      exact eq_or_beats_iff.mp (best rival text opensToo)
    · rintro ⟨opened, opens, best⟩
      have found : profile.longestOpener rest = some (opened.byteSize, opener) :=
        longestOpener_eq_some_iff.mpr ⟨⟨opened, opens, rfl⟩, fun rival text opensToo =>
          eq_or_beats_iff.mpr (best rival text opensToo)⟩
      rw [matchOpener, found, Option.map_some]

/-- A pair, a quote and a line marker may all be written alike; an empty opener counts for
nothing, even before them. -/
example :
    let profile : Profile :=
      { name := ""
        lineComments := ["#".toList]
        blockComments := [⟨[], "$".toList, false⟩, ⟨"#".toList, "#".toList, true⟩]
        quotes := [⟨"#".toList, none, true⟩] }
    profile.matchOpener "#x".toList = some (.block 1) := by
  decide

end Profile

end LineTally
