import LineTally.Tally.Basic

/-!
# Adding to a tally

Adding to the totals of one language changes what is listed for it and for no other
language, and adds just that much to the totals of all languages together.
-/

namespace LineTally

namespace Totals

@[simp]
theorem zero_add (totals : Totals) : 0 + totals = totals := by
  ext1 <;> exact UInt64.zero_add _

@[simp]
theorem add_zero (totals : Totals) : totals + 0 = totals := by
  ext1 <;> exact UInt64.add_zero _

end Totals

namespace Entries

/-- What is listed for a language. -/
def get? (entries : Entries) (name : String) : Option Totals :=
  (entries.find? (·.1 = name)).map (·.2)

/-- The totals of all that is listed. -/
def total (entries : Entries) : Totals :=
  (entries.map (·.2)).sum

@[simp]
theorem get?_nil (name : String) : get? [] name = none :=
  rfl

theorem get?_cons (entry : String × Totals) (rest : Entries) (name : String) :
    get? (entry :: rest) name = if entry.1 = name then some entry.2 else rest.get? name := by
  unfold get?
  rw [List.find?_cons]
  by_cases same : entry.1 = name <;> simp [same]

theorem get?_eq_none_of_lt {entries : Entries} {name : String}
    (before : ∀ entry ∈ entries, name < entry.1) : entries.get? name = none := by
  rw [get?, Option.map_eq_none_iff, List.find?_eq_none]
  intro entry member same
  rw [decide_eq_true_eq] at same
  exact Std.ne_of_lt (before entry member) same.symm

/-- A language is listed once. -/
theorem Sorted.get?_of_mem {entries : Entries} (sorted : entries.Sorted)
    {entry : String × Totals} (member : entry ∈ entries) :
    entries.get? entry.1 = some entry.2 := by
  induction entries with
  | nil => exact absurd member List.not_mem_nil
  | cons first rest inductionHypothesis =>
      obtain ⟨before, restSorted⟩ := List.pairwise_cons.mp sorted
      rw [get?_cons]
      rcases List.mem_cons.mp member with rfl | later
      · exact if_pos rfl
      · rw [if_neg (Std.ne_of_lt (before entry later)), inductionHypothesis restSorted later]

theorem isSome_get?_iff {entries : Entries} {name : String} :
    (entries.get? name).isSome ↔ ∃ entry ∈ entries, entry.1 = name := by
  simp [get?]

/-- What is added is added to what has been listed for the language, if anything. -/
theorem Sorted.get?_add {entries : Entries} (sorted : entries.Sorted) (name other : String)
    (totals : Totals) :
    (Entries.add name totals entries).get? other =
      if name = other then some ((entries.get? name).getD 0 + totals) else entries.get? other := by
  induction entries with
  | nil => simp [Entries.add, get?_cons]
  | cons entry rest inductionHypothesis =>
      obtain ⟨before, restSorted⟩ := List.pairwise_cons.mp sorted
      rw [Entries.add]
      split
      · next lower =>
          have unlisted : get? (entry :: rest) name = none := by
            apply get?_eq_none_of_lt
            intro later member
            rcases List.mem_cons.mp member with rfl | behind
            · exact lower
            · exact String.lt_trans lower (before later behind)
          rw [get?_cons, unlisted]
          simp
      · split
        · next same =>
            subst same
            rw [get?_cons, get?_cons, get?_cons]
            by_cases found : entry.1 = other <;> simp [found]
        · next different =>
            rw [get?_cons, inductionHypothesis restSorted, get?_cons, get?_cons,
              if_neg (Ne.symm different)]
            by_cases found : entry.1 = other
            · have notAdded : name ≠ other := fun same => different (same.trans found.symm)
              rw [if_pos found, if_neg notAdded, if_pos found]
            · rw [if_neg found, if_neg found]

theorem total_add (name : String) (totals : Totals) (entries : Entries) :
    (add name totals entries).total = entries.total + totals := by
  unfold total
  induction entries with
  | nil => simp [add]
  | cons entry rest inductionHypothesis =>
      rw [add]
      split
      · rw [List.map_cons, List.sum_cons, Totals.add_comm]
      · split
        · rw [List.map_cons, List.sum_cons, List.map_cons, List.sum_cons, Totals.add_assoc,
            Totals.add_comm totals, Totals.add_assoc]
        · rw [List.map_cons, List.sum_cons, List.map_cons, List.sum_cons, inductionHypothesis,
            Totals.add_assoc]

end Entries

namespace Tally

theorem total_eq_total_languages (tally : Tally) : tally.total = tally.languages.total := by
  have foldlAdd (entries : Entries) (start : Totals) :
      entries.foldl (fun total entry => total + entry.2) start = start + entries.total := by
    rw [Entries.total]
    induction entries generalizing start with
    | nil => simp
    | cons entry rest inductionHypothesis =>
        rw [List.foldl_cons, inductionHypothesis, List.map_cons, List.sum_cons, Totals.add_assoc]
  exact (foldlAdd tally.languages 0).trans (Totals.zero_add _)

theorem get?_addTotals (tally : Tally) (name other : String) (totals : Totals) :
    (tally.addTotals name totals).get? other =
      if name = other then some ((tally.get? name).getD 0 + totals) else tally.get? other :=
  tally.sorted.get?_add name other totals

theorem total_addTotals (tally : Tally) (name : String) (totals : Totals) :
    (tally.addTotals name totals).total = tally.total + totals := by
  rw [total_eq_total_languages, total_eq_total_languages]
  exact Entries.total_add name totals tally.languages

end Tally

end LineTally
