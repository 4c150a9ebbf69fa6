import LineTally.Line.Marks

/-!
# Lists of marks

The scanner keeps the marks of all lines, the latest first.  What is said of every
line may depend on the number of the line, which is how many lines come after it
in the list.
-/

namespace LineTally

namespace Marks

/-- Every line, by its number, and its marks satisfy `holds`, in a list of marks that
holds the latest line first. -/
def EachLine (holds : Nat → Marks → Prop) : List Marks → Prop
  | [] => True
  | marks :: older => holds older.length marks ∧ EachLine holds older

theorem EachLine.imp {holds holds' : Nat → Marks → Prop} {latestFirst : List Marks}
    (each : EachLine holds latestFirst)
    (implies : ∀ n marks, n < latestFirst.length → holds n marks → holds' n marks) :
    EachLine holds' latestFirst := by
  induction latestFirst with
  | nil => trivial
  | cons marks older inductionHypothesis =>
      obtain ⟨latest, earlier⟩ := each
      refine ⟨implies _ _ (Nat.lt_succ_self _) latest, inductionHypothesis earlier ?_⟩
      intro n marks' below
      exact implies n marks' (Nat.lt_succ_of_lt below)

theorem EachLine.and {holds holds' : Nat → Marks → Prop} {latestFirst : List Marks}
    (each : EachLine holds latestFirst) (each' : EachLine holds' latestFirst) :
    EachLine (fun n marks => holds n marks ∧ holds' n marks) latestFirst := by
  induction latestFirst with
  | nil => trivial
  | cons marks older inductionHypothesis =>
      exact ⟨⟨each.1, each'.1⟩, inductionHypothesis each.2 each'.2⟩

theorem eachLine_of_lt {holds : Nat → Marks → Prop} {latestFirst : List Marks}
    (all : ∀ n < latestFirst.length, ∀ marks, holds n marks) : EachLine holds latestFirst := by
  induction latestFirst with
  | nil => trivial
  | cons marks older inductionHypothesis =>
      refine ⟨all _ (Nat.lt_succ_self _) marks, inductionHypothesis fun n below => ?_⟩
      exact all n (Nat.lt_succ_of_lt below)

/-- What holds of every line holds of each line by its number. -/
theorem EachLine.getElem?_reverse {holds : Nat → Marks → Prop} {latestFirst : List Marks}
    (each : EachLine holds latestFirst) {n : Nat} (below : n < latestFirst.length) :
    ∃ marks, latestFirst.reverse[n]? = some marks ∧ holds n marks := by
  induction latestFirst with
  | nil => contradiction
  | cons latest older inductionHypothesis =>
      obtain ⟨held, earlier⟩ := each
      rw [List.reverse_cons]
      rcases Nat.lt_succ_iff_lt_or_eq.mp below with before | rfl
      · obtain ⟨marks, found, held⟩ := inductionHypothesis earlier before
        exact ⟨marks, by rwa [List.getElem?_append_left (by simpa using before)], held⟩
      · exact ⟨latest, by simp, held⟩

/-- The latest marks belong to the lines from `first` on. -/
theorem EachLine.of_mem_take {holds : Nat → Marks → Prop} {latestFirst : List Marks}
    {first : Nat} (each : EachLine holds latestFirst) {marks : Marks}
    (member : marks ∈ latestFirst.take (latestFirst.length - first)) :
    ∃ n, first ≤ n ∧ holds n marks := by
  induction latestFirst with
  | nil =>
      rw [List.take_nil] at member
      contradiction
  | cons latest older inductionHypothesis =>
      rw [List.length_cons] at member
      by_cases reached : first ≤ older.length
      · rw [Nat.succ_sub reached, List.take_succ_cons] at member
        rcases List.mem_cons.mp member with rfl | earlier
        · exact ⟨older.length, reached, each.1⟩
        · exact inductionHypothesis each.2 earlier
      · have noneTaken : older.length + 1 - first = 0 := by omega
        rw [noneTaken, List.take_zero] at member
        contradiction

/-- Line by line, the lines from `first` on are resolved. -/
theorem resolveLatest_cons (asCode : Bool) (first : Nat) (marks : Marks) (older : List Marks) :
    resolveLatest asCode (older.length + 1 - first) (marks :: older) =
      (if first ≤ older.length then marks.resolve asCode else marks) ::
        resolveLatest asCode (older.length - first) older := by
  by_cases reached : first ≤ older.length
  · rw [if_pos reached, Nat.succ_sub reached]
    rfl
  · have noneLatest : older.length + 1 - first = 0 := by omega
    have noneOlder : older.length - first = 0 := by omega
    rw [if_neg reached, noneLatest, noneOlder]
    rfl

theorem EachLine.resolveLatest {holds holds' : Nat → Marks → Prop} {latestFirst : List Marks}
    {asCode : Bool} {first : Nat} (each : EachLine holds latestFirst)
    (resolved : ∀ n marks, n < latestFirst.length → holds n marks →
      holds' n (if first ≤ n then marks.resolve asCode else marks)) :
    EachLine holds' (Marks.resolveLatest asCode (latestFirst.length - first) latestFirst) := by
  induction latestFirst with
  | nil => simp [Marks.resolveLatest, EachLine]
  | cons marks older inductionHypothesis =>
      obtain ⟨latest, earlier⟩ := each
      rw [List.length_cons, resolveLatest_cons]
      constructor
      · rw [length_resolveLatest]
        exact resolved _ _ (Nat.lt_succ_self _) latest
      · apply inductionHypothesis earlier
        intro n marks' below
        exact resolved n marks' (Nat.lt_succ_of_lt below)

@[simp]
theorem doc_resolve (asCode : Bool) (marks : Marks) : (marks.resolve asCode).doc = false := by
  unfold resolve
  split
  · rfl
  · next unmarked => exact eq_false_of_ne_true unmarked

theorem resolve_of_doc_eq_false {asCode : Bool} {marks : Marks} (unmarked : marks.doc = false) :
    marks.resolve asCode = marks := by
  simp [resolve, unmarked]

theorem eachLine_of_forall {holds : Marks → Prop} {latestFirst : List Marks}
    (all : ∀ marks ∈ latestFirst, holds marks) : EachLine (fun _ => holds) latestFirst := by
  induction latestFirst with
  | nil => trivial
  | cons marks older inductionHypothesis =>
      refine ⟨all marks List.mem_cons_self, inductionHypothesis fun other member => ?_⟩
      exact all other (List.mem_cons_of_mem _ member)

/-- Values known line by line make up the list of all values. -/
theorem EachLine.reverse_map_eq {α : Type} {value : Marks → α} {valueAt : Nat → α}
    {latestFirst : List Marks}
    (each : EachLine (fun n marks => value marks = valueAt n) latestFirst) :
    (latestFirst.map value).reverse = (List.range latestFirst.length).map valueAt := by
  induction latestFirst with
  | nil => rfl
  | cons marks older inductionHypothesis =>
      obtain ⟨latest, earlier⟩ := each
      rw [List.map_cons, List.reverse_cons, inductionHypothesis earlier, List.length_cons,
        List.range_succ, List.map_append, List.map_singleton, latest]

/-- To become a comment does not change the kind of a line with the provisional mark. -/
@[simp]
theorem kind_resolve_false (marks : Marks) : (marks.resolve false).kind = marks.kind := by
  unfold resolve
  split
  · next marked => simp [kind, marked]
  · rfl

theorem map_kind_resolveLatest_false (count : Nat) (latestFirst : List Marks) :
    (resolveLatest false count latestFirst).map kind = latestFirst.map kind := by
  calc
    (resolveLatest false count latestFirst).map kind =
        (latestFirst.take count).map kind ++ (latestFirst.drop count).map kind := by
      simp [resolveLatest, Function.comp_def]
    _ = latestFirst.map kind := by rw [← List.map_append, List.take_append_drop]

/-- Resolving lines that are all newer than `older` leaves `older` alone. -/
theorem resolveLatest_append {asCode : Bool} {count : Nat} {newer older : List Marks}
    (within : count ≤ newer.length) :
    resolveLatest asCode count (newer ++ older) = resolveLatest asCode count newer ++ older := by
  simp only [resolveLatest]
  rw [List.take_append_of_le_length within, List.drop_append_of_le_length within,
    List.append_assoc]

/-- Resolving more lines than `newer` resolves the rest in `older`. -/
theorem resolveLatest_append_add (asCode : Bool) (count : Nat) (newer older : List Marks) :
    resolveLatest asCode (newer.length + count) (newer ++ older) =
      newer.map (resolve asCode) ++ resolveLatest asCode count older := by
  simp only [resolveLatest]
  rw [List.take_length_add_append, List.drop_length_add_append, List.map_append,
    List.append_assoc]

end Marks

end LineTally
