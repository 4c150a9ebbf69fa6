import LineTally.Proofs.Tally.Entries

/-!
# Merging tallies

What is listed for a language in two merged tallies is what the two list for it
together.  Tallies are known from what they list, because languages are in strict
order, so it does not matter in which order tallies are merged or how they are
grouped, and the empty tally adds nothing.
-/

namespace LineTally

namespace Entries

theorem Sorted.get?_eq_none_of_head {entry : String × Totals} {rest : Entries}
    (sorted : Entries.Sorted (entry :: rest)) : rest.get? entry.1 = none :=
  get?_eq_none_of_lt (List.pairwise_cons.mp sorted).1

/-- A name that is listed does not come before the first one. -/
theorem Sorted.not_lt_head {entry other : String × Totals} {rest others : Entries}
    (sorted : Entries.Sorted (other :: others))
    (listed : get? (other :: others) entry.1 = get? (entry :: rest) entry.1) :
    ¬ entry.1 < other.1 := by
  intro lower
  have unlisted : get? (other :: others) entry.1 = none := by
    apply get?_eq_none_of_lt
    intro later member
    rcases List.mem_cons.mp member with rfl | behind
    · exact lower
    · exact String.lt_trans lower ((List.pairwise_cons.mp sorted).1 later behind)
  rw [unlisted, get?_cons, if_pos rfl] at listed
  contradiction

/-- Sorted entries are known from what they list. -/
theorem Sorted.ext_get? {first second : Entries} (firstSorted : first.Sorted)
    (secondSorted : second.Sorted) (same : ∀ name, first.get? name = second.get? name) :
    first = second := by
  induction first generalizing second with
  | nil =>
      cases second with
      | nil => rfl
      | cons other others =>
          have listed := same other.1
          rw [get?_nil, get?_cons, if_pos rfl] at listed
          contradiction
  | cons entry rest inductionHypothesis =>
      cases second with
      | nil =>
          have listed := same entry.1
          rw [get?_nil, get?_cons, if_pos rfl] at listed
          contradiction
      | cons other others =>
          have names : entry.1 = other.1 :=
            String.le_antisymm
              (String.not_lt.mp (firstSorted.not_lt_head (same other.1)))
              (String.not_lt.mp (secondSorted.not_lt_head (same entry.1).symm))
          have totals := same entry.1
          rw [get?_cons, if_pos rfl, get?_cons, if_pos names.symm, Option.some.injEq] at totals
          have heads : entry = other := Prod.ext names totals
          subst heads
          have behind : ∀ name, get? rest name = get? others name := by
            intro name
            by_cases first : entry.1 = name
            · rw [← first, firstSorted.get?_eq_none_of_head, secondSorted.get?_eq_none_of_head]
            · have listed := same name
              rwa [get?_cons, if_neg first, get?_cons, if_neg first] at listed
          rw [inductionHypothesis (List.pairwise_cons.mp firstSorted).2
            (List.pairwise_cons.mp secondSorted).2 behind]

end Entries

namespace Tally

/-- A tally is known from what it lists and its counters. -/
theorem ext_get? {first second : Tally}
    (languages : ∀ name, first.get? name = second.get? name)
    (ignored : first.ignored = second.ignored) (flagged : first.flagged = second.flagged) :
    first = second := by
  have entries := first.sorted.ext_get? second.sorted languages
  cases first
  cases second
  cases entries
  cases ignored
  cases flagged
  rfl

@[simp]
theorem get?_empty (name : String) : empty.get? name = none :=
  rfl

theorem get?_foldl_addTotals {entries : Entries} (sorted : entries.Sorted) (tally : Tally)
    (name : String) :
    (entries.foldl (fun tally entry => tally.addTotals entry.1 entry.2) tally).get? name =
      Option.merge (· + ·) (tally.get? name) (entries.get? name) := by
  induction entries generalizing tally with
  | nil => simp
  | cons entry rest inductionHypothesis =>
      rw [List.foldl_cons, inductionHypothesis (List.pairwise_cons.mp sorted).2,
        get?_addTotals, Entries.get?_cons]
      by_cases found : entry.1 = name
      · subst found
        rw [if_pos rfl, if_pos rfl, sorted.get?_eq_none_of_head]
        cases tally.get? entry.1 <;> simp
      · rw [if_neg found, if_neg found]

/-- What two tallies list for a language is added up. -/
theorem get?_merge (first second : Tally) (name : String) :
    (first.merge second).get? name =
      Option.merge (· + ·) (first.get? name) (second.get? name) :=
  get?_foldl_addTotals second.sorted first name

@[simp]
theorem ignored_merge (first second : Tally) :
    (first.merge second).ignored = first.ignored + second.ignored :=
  rfl

@[simp]
theorem flagged_merge (first second : Tally) :
    (first.merge second).flagged = first.flagged + second.flagged :=
  rfl

theorem merge_comm (first second : Tally) : first.merge second = second.merge first := by
  apply ext_get?
  · intro name
    rw [get?_merge, get?_merge]
    cases first.get? name <;> cases second.get? name <;> simp [Totals.add_comm]
  · exact UInt64.add_comm _ _
  · exact UInt64.add_comm _ _

theorem merge_assoc (first second third : Tally) :
    (first.merge second).merge third = first.merge (second.merge third) := by
  apply ext_get?
  · intro name
    rw [get?_merge, get?_merge, get?_merge, get?_merge]
    cases first.get? name <;> cases second.get? name <;> cases third.get? name <;>
      simp [Totals.add_assoc]
  · exact UInt64.add_assoc _ _ _
  · exact UInt64.add_assoc _ _ _

@[simp]
theorem merge_empty (tally : Tally) : tally.merge empty = tally :=
  ext_get? (fun _ => rfl) (UInt64.add_zero _) (UInt64.add_zero _)

@[simp]
theorem empty_merge (tally : Tally) : empty.merge tally = tally := by
  rw [merge_comm, merge_empty]

theorem total_foldl_addTotals (entries : Entries) (tally : Tally) :
    (entries.foldl (fun tally entry => tally.addTotals entry.1 entry.2) tally).total =
      tally.total + entries.total := by
  induction entries generalizing tally with
  | nil => exact (Totals.add_zero tally.total).symm
  | cons entry rest inductionHypothesis =>
      rw [List.foldl_cons, inductionHypothesis, total_addTotals, Totals.add_assoc, Entries.total,
        Entries.total, List.map_cons, List.sum_cons]

theorem total_merge (first second : Tally) :
    (first.merge second).total = first.total + second.total := by
  rw [total_eq_total_languages second]
  exact total_foldl_addTotals second.languages first

/-- To tally a file is to merge the tally of that file alone. -/
theorem accumulate_eq_merge (tally : Tally) (name : String) (counts : LineCounts) :
    tally.accumulate name counts = tally.merge (empty.accumulate name counts) :=
  ext_get? (fun _ => rfl) (UInt64.add_zero _).symm (UInt64.add_zero _).symm

theorem accumulate_merge (first second : Tally) (name : String) (counts : LineCounts) :
    (first.accumulate name counts).merge second = (first.merge second).accumulate name counts := by
  calc
    (first.accumulate name counts).merge second =
        first.merge ((empty.accumulate name counts).merge second) := by
      rw [accumulate_eq_merge, merge_assoc]
    _ = first.merge (second.merge (empty.accumulate name counts)) := by
      rw [merge_comm (empty.accumulate name counts)]
    _ = (first.merge second).accumulate name counts := by
      rw [← merge_assoc, ← accumulate_eq_merge]

theorem get?_merge_eq_some_iff {first second : Tally} {name : String} {totals : Totals} :
    (first.merge second).get? name = some totals ↔
      ((first.get? name).isSome ∨ (second.get? name).isSome) ∧
        totals = (first.get? name).getD 0 + (second.get? name).getD 0 := by
  rw [get?_merge]
  cases first.get? name <;> cases second.get? name <;> simp [eq_comm]

/-- Tallies are a commutative monoid under merging, and all that a tally is asked for adds up:
what is listed for a language, where nothing counts as zero, the totals of all languages, and the
two counters.  It does not matter whether a file is tallied before or after. -/
theorem merged_tallies_add_up (first second third : Tally) :
    (first.merge second).merge third = first.merge (second.merge third) ∧
      first.merge second = second.merge first ∧
      first.merge empty = first ∧ empty.merge first = first ∧
      (∀ name totals, (first.merge second).get? name = some totals ↔
        ((first.get? name).isSome ∨ (second.get? name).isSome) ∧
          totals = (first.get? name).getD 0 + (second.get? name).getD 0) ∧
      (first.merge second).total = first.total + second.total ∧
      (first.merge second).ignored = first.ignored + second.ignored ∧
      (first.merge second).flagged = first.flagged + second.flagged ∧
      ∀ name counts, (first.accumulate name counts).merge second =
        (first.merge second).accumulate name counts :=
  ⟨merge_assoc first second third, merge_comm first second, merge_empty first, empty_merge first,
    fun _ _ => get?_merge_eq_some_iff, total_merge first second, ignored_merge first second,
    flagged_merge first second, accumulate_merge first second⟩

end Tally

end LineTally
