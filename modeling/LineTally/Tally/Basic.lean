import LineTally.Line.Basic

/-!
# The tally

A tally holds the totals of each language, and how many files were ignored or
ended inside an open region.  Languages are listed in strictly increasing order
of their names, so tallies with the same content are equal.
-/

namespace LineTally

/-! ## Totals -/

/-- The number of files and of their lines of each kind. -/
@[ext]
structure Totals where
  files : UInt64 := 0
  blank : UInt64 := 0
  comment : UInt64 := 0
  code : UInt64 := 0
deriving DecidableEq, Repr

namespace Totals

/-- The number of lines of any kind. -/
def lines (totals : Totals) : UInt64 :=
  totals.blank + totals.comment + totals.code

/-- One file with these counts. -/
def ofFile (counts : LineCounts) : Totals :=
  { files := 1, blank := counts.blank, comment := counts.comment, code := counts.code }

instance : Zero Totals :=
  ⟨{}⟩

instance : Add Totals :=
  ⟨fun a b =>
    { files := a.files + b.files
      blank := a.blank + b.blank
      comment := a.comment + b.comment
      code := a.code + b.code }⟩

@[simp]
theorem files_add (a b : Totals) : (a + b).files = a.files + b.files :=
  rfl

@[simp]
theorem blank_add (a b : Totals) : (a + b).blank = a.blank + b.blank :=
  rfl

@[simp]
theorem comment_add (a b : Totals) : (a + b).comment = a.comment + b.comment :=
  rfl

@[simp]
theorem code_add (a b : Totals) : (a + b).code = a.code + b.code :=
  rfl

theorem add_comm (a b : Totals) : a + b = b + a := by
  ext1 <;> simp [UInt64.add_comm]

theorem add_assoc (a b c : Totals) : a + b + c = a + (b + c) := by
  ext1 <;> simp [UInt64.add_assoc]

@[simp]
theorem lines_ofFile (counts : LineCounts) : (ofFile counts).lines = counts.total :=
  rfl

end Totals

/-! ## Entries -/

/-- The totals of some languages, by name. -/
abbrev Entries := List (String × Totals)

namespace Entries

/-- Strictly increasing order of the names. -/
def Sorted (entries : Entries) : Prop :=
  entries.Pairwise fun a b => a.1 < b.1

/-- Add to the totals of a language; one that is not listed has none yet. -/
def add (name : String) (totals : Totals) : Entries → Entries
  | [] => [(name, totals)]
  | entry :: rest =>
      if name < entry.1 then (name, totals) :: entry :: rest
      else if name = entry.1 then (entry.1, entry.2 + totals) :: rest
      else entry :: add name totals rest

theorem name_of_mem_add {name : String} {totals : Totals} {entries : Entries}
    {entry : String × Totals} (member : entry ∈ add name totals entries) :
    entry.1 = name ∨ ∃ old ∈ entries, entry.1 = old.1 := by
  induction entries with
  | nil =>
      simp only [add, List.mem_singleton] at member
      exact Or.inl (by rw [member])
  | cons first rest inductionHypothesis =>
      rw [add] at member
      split at member
      · rcases List.mem_cons.mp member with rfl | old
        · exact Or.inl rfl
        · exact Or.inr ⟨entry, old, rfl⟩
      · split at member
        · rcases List.mem_cons.mp member with rfl | old
          · exact Or.inr ⟨first, List.mem_cons_self, rfl⟩
          · exact Or.inr ⟨entry, List.mem_cons_of_mem _ old, rfl⟩
        · rcases List.mem_cons.mp member with rfl | deeper
          · exact Or.inr ⟨entry, List.mem_cons_self, rfl⟩
          · rcases inductionHypothesis deeper with same | ⟨old, oldMember, same⟩
            · exact Or.inl same
            · exact Or.inr ⟨old, List.mem_cons_of_mem _ oldMember, same⟩

/-- Adding keeps the names in order. -/
theorem Sorted.add {entries : Entries} (sorted : entries.Sorted) (name : String)
    (totals : Totals) : (Entries.add name totals entries).Sorted := by
  induction entries with
  | nil => exact List.pairwise_singleton _ _
  | cons first rest inductionHypothesis =>
      obtain ⟨before, restSorted⟩ := List.pairwise_cons.mp sorted
      rw [Entries.add]
      split
      · next lower =>
          refine List.pairwise_cons.mpr ⟨fun entry member => ?_, sorted⟩
          rcases List.mem_cons.mp member with rfl | later
          · exact lower
          · exact String.lt_trans lower (before entry later)
      · next notLower =>
          split
          · exact List.pairwise_cons.mpr ⟨before, restSorted⟩
          · next different =>
              refine List.pairwise_cons.mpr
                ⟨fun entry member => ?_, inductionHypothesis restSorted⟩
              rcases name_of_mem_add member with same | ⟨old, oldMember, same⟩
              · rw [same]
                exact Std.lt_of_le_of_ne (String.not_lt.mp notLower) (Ne.symm different)
              · rw [same]
                exact before old oldMember

end Entries

/-- The totals of each language and the files that were not counted. -/
structure Tally where
  languages : Entries := []
  sorted : languages.Sorted := by exact List.Pairwise.nil
  /-- Files that were not read as text of a known language. -/
  ignored : UInt64 := 0
  /-- Files that end inside an open region. -/
  flagged : UInt64 := 0
deriving DecidableEq, Repr

namespace Tally

/-- Nothing tallied yet. -/
def empty : Tally :=
  {}

/-- Add to the totals of one language. -/
def addTotals (tally : Tally) (name : String) (totals : Totals) : Tally :=
  { tally with
    languages := tally.languages.add name totals
    sorted := tally.sorted.add name totals }

/-- Tally one file of a language. -/
def accumulate (tally : Tally) (name : String) (counts : LineCounts) : Tally :=
  tally.addTotals name (Totals.ofFile counts)

/-- Tally a file that is not counted. -/
def ignore (tally : Tally) : Tally :=
  { tally with ignored := tally.ignored + 1 }

/-- Tally a file that ends inside an open region. -/
def flag (tally : Tally) : Tally :=
  { tally with flagged := tally.flagged + 1 }

/-- All that is in either tally. -/
def merge (first second : Tally) : Tally :=
  let languages :=
    second.languages.foldl (fun tally entry => tally.addTotals entry.1 entry.2) first
  { languages with
    ignored := first.ignored + second.ignored
    flagged := first.flagged + second.flagged }

/-- The totals of one language. -/
def get? (tally : Tally) (name : String) : Option Totals :=
  (tally.languages.find? (·.1 = name)).map (·.2)

/-- The totals of all languages together. -/
def total (tally : Tally) : Totals :=
  tally.languages.foldl (fun total entry => total + entry.2) 0

/-- Whether no language is listed. -/
def isEmpty (tally : Tally) : Bool :=
  tally.languages.isEmpty

end Tally

end LineTally
