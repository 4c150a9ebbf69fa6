import Mathlib.Data.List.Perm.Basic
import Mathlib.Logic.Equiv.Basic
import LineTally.Proofs.Language.Precedence

/-!
# Listing delimiters in another order

Two profiles that list the same delimiters in different orders know the same language, as
long as no delimiter is listed twice among those of its sort: of two delimiters that stand at
a position and are equally wide both are the same text.  What opens at a position is then the
same delimiter, under the index that it has in the other profile (`longestOpener_of_leads`).
-/

namespace LineTally

/-! ## Places in a list -/

/-- The same permutation, one place further on. -/
def shiftPlaces (places : Equiv.Perm Nat) : Equiv.Perm Nat where
  toFun
    | 0 => 0
    | i + 1 => places i + 1
  invFun
    | 0 => 0
    | i + 1 => places.symm i + 1
  left_inv := by rintro (_ | i) <;> simp
  right_inv := by rintro (_ | i) <;> simp

/-- A list that is permuted has a permutation of its places. -/
theorem exists_places_of_perm {α : Type} {first second : List α} (arranged : first.Perm second) :
    ∃ places : Equiv.Perm Nat, ∀ i, second[places i]? = first[i]? := by
  induction arranged with
  | nil => exact ⟨Equiv.refl Nat, fun _ => rfl⟩
  | cons entry _ inductionHypothesis =>
      obtain ⟨places, same⟩ := inductionHypothesis
      refine ⟨shiftPlaces places, ?_⟩
      rintro (_ | i)
      · rfl
      · exact same i
  | swap former latter rest =>
      refine ⟨Equiv.swap 0 1, ?_⟩
      rintro (_ | _ | i)
      · rfl
      · rfl
      · rw [Equiv.swap_apply_of_ne_of_ne (by omega) (by omega)]
        rfl
  | trans _ _ first second =>
      obtain ⟨places, same⟩ := first
      obtain ⟨places', same'⟩ := second
      exact ⟨places.trans places', fun i => (same' _).trans (same i)⟩

namespace Text

theorem eq_nil_of_byteSize_append_eq {text rest : Text}
    (same : byteSize (text ++ rest) = byteSize text) : rest = [] := by
  cases rest with
  | nil => rfl
  | cons c rest =>
      have positive := c.utf8Size_pos
      rw [byteSize_append, byteSize_cons] at same
      omega

/-- Two beginnings of a text that are equally wide are the same. -/
theorem eq_of_prefix_of_byteSize_eq {first second text : Text} (firstStands : first <+: text)
    (secondStands : second <+: text) (sameSize : first.byteSize = second.byteSize) :
    first = second := by
  rcases List.prefix_or_prefix_of_prefix firstStands secondStands with ⟨rest, rfl⟩ | ⟨rest, rfl⟩
  · rw [eq_nil_of_byteSize_append_eq sameSize.symm, List.append_nil]
  · rw [eq_nil_of_byteSize_append_eq sameSize, List.append_nil]

end Text

/-! ## Profiles -/

namespace Profile

/-- Two profiles list the same delimiters, each in its own order. -/
structure Rearranged (first second : Profile) : Prop where
  lineComments : first.lineComments.Perm second.lineComments
  blockComments : first.blockComments.Perm second.blockComments
  quotes : first.quotes.Perm second.quotes
  columnOneComments : first.columnOneComments.Perm second.columnOneComments
  charLiteral : first.charLiteral = second.charLiteral

/-- No delimiter opens two things of one sort. -/
structure Distinct (profile : Profile) : Prop where
  lineComments : profile.lineComments.Nodup
  blockComments : (profile.blockComments.map (·.opener)).Nodup
  quotes : (profile.quotes.map (·.delimiter)).Nodup

end Profile

/-- The index that each delimiter of a profile has in another one. -/
structure Reindexing where
  blocks : Equiv.Perm Nat
  quotes : Equiv.Perm Nat
  lines : Equiv.Perm Nat

namespace Reindexing

/-- An opener under its other index. -/
def opener (reindexing : Reindexing) : Opener → Opener
  | .block index => .block (reindexing.blocks index)
  | .quote index => .quote (reindexing.quotes index)
  | .line index => .line (reindexing.lines index)
  | .charLiteral width => .charLiteral width

@[simp]
theorem rank_opener (reindexing : Reindexing) (opener : Opener) :
    (reindexing.opener opener).rank = opener.rank := by
  cases opener <;> rfl

theorem opener_surjective (reindexing : Reindexing) (other : Opener) :
    ∃ opener, reindexing.opener opener = other := by
  cases other with
  | block index => exact ⟨.block (reindexing.blocks.symm index), by simp [opener]⟩
  | quote index => exact ⟨.quote (reindexing.quotes.symm index), by simp [opener]⟩
  | line index => exact ⟨.line (reindexing.lines.symm index), by simp [opener]⟩
  | charLiteral width => exact ⟨.charLiteral width, rfl⟩

/-- The second profile lists the same delimiters as the first one, under their other
indices. -/
structure Leads (reindexing : Reindexing) (first second : Profile) : Prop where
  blocks : ∀ i, second.blockComments[reindexing.blocks i]? = first.blockComments[i]?
  quotes : ∀ i, second.quotes[reindexing.quotes i]? = first.quotes[i]?
  lines : ∀ i, second.lineComments[reindexing.lines i]? = first.lineComments[i]?
  charLiteral : second.charLiteral = first.charLiteral
  columnOne : ∀ line,
    second.startsWithColumnOneComment line = first.startsWithColumnOneComment line

end Reindexing

theorem Profile.Rearranged.exists_reindexing {first second : Profile}
    (rearranged : first.Rearranged second) :
    ∃ reindexing : Reindexing, reindexing.Leads first second := by
  obtain ⟨blocks, sameBlocks⟩ := exists_places_of_perm rearranged.blockComments
  obtain ⟨quotes, sameQuotes⟩ := exists_places_of_perm rearranged.quotes
  obtain ⟨lines, sameLines⟩ := exists_places_of_perm rearranged.lineComments
  exact ⟨⟨blocks, quotes, lines⟩, sameBlocks, sameQuotes, sameLines, rearranged.charLiteral.symm,
    fun _ => rearranged.columnOneComments.symm.any_eq⟩

/-! ## What opens at a position -/

/-- Entries with the same delimiter stand at the same place if no delimiter is listed twice. -/
theorem index_eq_of_nodup_map {α : Type} {entries : List α} {delimiter : α → Text} {i j : Nat}
    {entry other : α} (nodup : (entries.map delimiter).Nodup) (listed : entries[i]? = some entry)
    (otherListed : entries[j]? = some other) (same : delimiter entry = delimiter other) :
    i = j := by
  have below : i < (entries.map delimiter).length := by
    simpa using (List.getElem?_eq_some_iff.mp listed).1
  apply (List.getElem?_inj below nodup).mp
  rw [List.getElem?_map, List.getElem?_map, listed, otherListed, Option.map_some, Option.map_some,
    same]

namespace Profile

variable {first second profile : Profile} {text opened opened' : Text} {opener other : Opener}
  {reindexing : Reindexing}

/-- A delimiter opens one thing of each sort. -/
theorem Distinct.eq_of_opens (distinct : profile.Distinct)
    (opens : profile.Opens text opener opened) (otherOpens : profile.Opens text other opened')
    (same : opened = opened') (sameRank : opener.rank = other.rank) : opener = other := by
  cases opens with
  | block listed =>
      cases otherOpens with
      | block listed' =>
          exact congrArg _ (index_eq_of_nodup_map distinct.blockComments listed listed' same)
      | _ => simp [Opener.rank] at sameRank
  | quote listed =>
      cases otherOpens with
      | quote listed' =>
          exact congrArg _ (index_eq_of_nodup_map distinct.quotes listed listed' same)
      | _ => simp [Opener.rank] at sameRank
  | line listed =>
      cases otherOpens with
      | line listed' =>
          have nodup : (profile.lineComments.map id).Nodup := by
            rw [List.map_id]
            exact distinct.lineComments
          exact congrArg _ (index_eq_of_nodup_map nodup listed listed' same)
      | _ => simp [Opener.rank] at sameRank
  | charLiteral =>
      cases otherOpens with
      | charLiteral => rw [same]
      | _ => simp [Opener.rank] at sameRank

/-- A delimiter that opens something in one profile opens the same thing in the other. -/
theorem opens_opener_iff (leads : reindexing.Leads first second) :
    second.Opens text (reindexing.opener opener) opened ↔ first.Opens text opener opened := by
  constructor
  · intro opens
    cases opener with
    | block index =>
        cases opens with
        | block listed ne stands => exact .block ((leads.blocks index).symm.trans listed) ne stands
    | quote index =>
        cases opens with
        | quote listed ne stands => exact .quote ((leads.quotes index).symm.trans listed) ne stands
    | line index =>
        cases opens with
        | line listed ne stands => exact .line ((leads.lines index).symm.trans listed) ne stands
    | charLiteral width =>
        cases opens with
        | charLiteral quoted found => exact .charLiteral (leads.charLiteral.symm.trans quoted) found
  · intro opens
    cases opens with
    | block listed ne stands => exact .block ((leads.blocks _).trans listed) ne stands
    | quote listed ne stands => exact .quote ((leads.quotes _).trans listed) ne stands
    | line listed ne stands => exact .line ((leads.lines _).trans listed) ne stands
    | charLiteral quoted found => exact .charLiteral (leads.charLiteral.trans quoted) found

/-- An opener that beats another one does so under their other indices, because only their
sorts can tell them apart if they are equally wide. -/
theorem beats_opener (distinct : first.Distinct) (opens : first.Opens text opener opened)
    (otherOpens : first.Opens text other opened')
    (beats : Beats (opened.byteSize, opener) (opened'.byteSize, other)) :
    Beats (opened.byteSize, reindexing.opener opener)
      (opened'.byteSize, reindexing.opener other) := by
  rcases beats with wider | ⟨asWide, before⟩
  · exact .inl wider
  · refine .inr ⟨asWide, .inl ?_⟩
    rw [Reindexing.rank_opener, Reindexing.rank_opener]
    rcases before with lower | ⟨sameRank, below⟩
    · exact lower
    · have same := Text.eq_of_prefix_of_byteSize_eq opens.isPrefix otherOpens.isPrefix asWide.symm
      rw [distinct.eq_of_opens opens otherOpens same sameRank] at below
      exact absurd below (Nat.lt_irrefl _)

/-- What opens at a position is the same delimiter under its other index. -/
theorem longestOpener_of_leads (leads : reindexing.Leads first second) (distinct : first.Distinct)
    (text : Text) :
    second.longestOpener text =
      (first.longestOpener text).map fun best => (best.1, reindexing.opener best.2) := by
  cases found : first.longestOpener text with
  | none =>
      refine longestOpener_eq_none_iff.mpr fun other opened opens => ?_
      obtain ⟨opener, rfl⟩ := reindexing.opener_surjective other
      exact longestOpener_eq_none_iff.mp found opener opened ((opens_opener_iff leads).mp opens)
  | some best =>
      obtain ⟨width, opener⟩ := best
      obtain ⟨⟨opened, opens, rfl⟩, beaten⟩ := longestOpener_eq_some_iff.mp found
      refine longestOpener_eq_some_iff.mpr
        ⟨⟨opened, (opens_opener_iff leads).mpr opens, rfl⟩, fun other' opened' opens' => ?_⟩
      obtain ⟨other, rfl⟩ := reindexing.opener_surjective other'
      have otherOpens := (opens_opener_iff leads).mp opens'
      rcases beaten other opened' otherOpens with same | beats
      · rw [Prod.mk.injEq] at same
        rw [same.1, same.2]
        exact .inl rfl
      · exact .inr (beats_opener distinct opens otherOpens beats)

end Profile

end LineTally
