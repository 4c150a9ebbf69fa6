import LineTally.Proofs.Discovery.Depth
import LineTally.Proofs.Lists
import Mathlib.Data.List.Count

/-!
# Without the directory that is too deep

A search makes one finding of a directory that is one level too deep, and goes on with what
else there is: it comes to the same findings but for this one if the directory is not listed
at all (`walkWith_unlisting`, `examine_unlisting`).
-/

namespace LineTally

/-- Whether an entry of a directory is the directory at the path. -/
def EntryReading.isDirectoryAt (directory path : Path) : EntryReading → Bool
  | .entry name (.directory _) => directory.join name = path
  | _ => false

theorem EntryReading.isDirectoryAt_iff {directory path : Path} {reading : EntryReading} :
    reading.isDirectoryAt directory path = true ↔
      ∃ name entries, reading = .entry name (.directory entries) ∧
        directory.join name = path := by
  cases reading with
  | lost => simp [isDirectoryAt]
  | untyped => simp [isDirectoryAt]
  | entry name child => cases child <;> simp [isDirectoryAt]

/-- Everything is read as before, but the directory at the path is not listed. -/
def DirectoryReader.unlisting (read : DirectoryReader) (path : Path) : DirectoryReader :=
  fun directory node =>
    (read directory node).map (·.filter (!·.isDirectoryAt directory path))

namespace Finding

variable {finding : Finding} {found : List Finding} {path : Path}

theorem not_apart_self (about : finding.subject? = some path) : ¬ finding.Apart finding := by
  intro apart
  have different := apart path about path about
  rw [Path.same_iff.mpr rfl] at different
  contradiction

/-- Findings about different paths are made once. -/
theorem count_eq_one (apart : found.Pairwise Apart) (member : finding ∈ found)
    (about : finding.subject? = some path) : found.count finding = 1 := by
  induction found with
  | nil => contradiction
  | cons first rest inductionHypothesis =>
      obtain ⟨firstApart, restApart⟩ := List.pairwise_cons.mp apart
      by_cases same : first = finding
      · subst same
        have notLater : first ∉ rest := fun later =>
          not_apart_self about (firstApart first later)
        rw [List.count_cons_self, List.count_eq_zero_of_not_mem notLater]
      · have later := List.mem_of_ne_of_mem (Ne.symm same) member
        rw [List.count_cons_of_ne same, inductionHypothesis restApart later]

/-- To count with the finding is to count without it and to add how often it is made. -/
theorem countP_eq_countP_filter_add_count {counts : Finding → Bool}
    (isCounted : counts finding = true) :
    found.countP counts = (found.filter (· ≠ finding)).countP counts + found.count finding := by
  rw [List.countP_eq_countP_filter_add found counts (· ≠ finding), List.count_eq_countP,
    List.countP_filter (p := counts) (q := fun other => !decide (other ≠ finding))]
  congr 1
  apply List.countP_congr
  intro other _
  by_cases same : other = finding
  · simp [same, isCounted]
  · simp [same]

end Finding

variable {options : WalkOptions} {read : DirectoryReader} {start here path : Path}
  {budget depth : Nat} {node : Node} {names : List Bytes}

/-- What comes of an entry that is listed still. -/
theorem examineEntry_unlisting {reading : EntryReading} {directory : Path}
    {search other : Path → Node → List Finding}
    (below : ∀ name entries, reading = .entry name (.directory entries) →
      search (directory.join name) (.directory entries) =
        (other (directory.join name) (.directory entries)).filter (· ≠ .tooDeep path)) :
    examineEntry options start search directory reading =
      (examineEntry options start other directory reading).filter (· ≠ .tooDeep path) := by
  cases reading with
  | lost => rfl
  | untyped => rfl
  | entry name child =>
      cases child with
      | directory entries =>
          rw [examineEntry, examineEntry]
          split
          · rfl
          · exact below name entries rfl
      | file content =>
          rw [examineEntry, examineEntry]
          split <;> rfl
      | link => rfl
      | device => rfl

/-- If a search comes to the directory at the path where it may enter no more, just the
finding of it is missing when it is not listed. -/
theorem walkWith_unlisting (proper : read.IsProper) (isTree : node.IsTree)
    (fits : ∀ names : List Bytes, (∀ name ∈ names, IsName name) → path = here.joinAll names →
      names ≠ [] ∧ names.length = budget) :
    walkWith (read.unlisting path) options start budget depth here node =
      (walkWith read options start budget depth here node).filter (· ≠ .tooDeep path) := by
  induction budget generalizing depth here node with
  | zero =>
      have elsewhere : here ≠ path := by
        rintro rfl
        exact (fits [] (by simp) rfl).1 rfl
      simp [elsewhere]
  | succ budget inductionHypothesis =>
      rw [walkWith, walkWith]
      by_cases leftOut : (0 < depth && options.excludes here) = true
      · simp [leftOut]
      rw [if_neg leftOut, if_neg leftOut, DirectoryReader.unlisting]
      cases reads : read here node with
      | error error => simp [Except.map]
      | ok listed =>
          apply flatMap_filter_eq_filter_flatMap
          · intro reading listedMem kept
            apply examineEntry_unlisting
            rintro name entries rfl
            have elsewhere : here.join name ≠ path := fun isThere => by
              rw [EntryReading.isDirectoryAt_iff.mpr ⟨name, entries, rfl, isThere⟩] at kept
              contradiction
            have isName := proper.isName isTree reads _ listedMem name rfl
            apply inductionHypothesis (proper.isTree isTree reads name _ listedMem)
            rintro names areNames rfl
            obtain ⟨_, length⟩ := fits (name :: names)
              (List.forall_mem_cons.mpr ⟨isName, areNames⟩) rfl
            refine ⟨?_, Nat.succ.inj length⟩
            rintro rfl
            exact elsewhere rfl
          · -- The directory itself is one name away, so the search may not enter it.
            intro reading listedMem notListed
            obtain ⟨name, entries, rfl, rfl⟩ :=
              EntryReading.isDirectoryAt_iff.mp (by simpa using notListed)
            have isName := proper.isName isTree reads _ listedMem name rfl
            obtain ⟨_, length⟩ := fits [name] (by simpa using isName) rfl
            obtain rfl : budget = 0 := by simpa using length.symm
            rw [examineEntry]
            split <;> simp

section Examine

variable {find : Path → Except FileError Node}

/-- From one given path the finding of a directory that is too deep is made once, and with the
directory not listed just this finding is missing. -/
theorem examine_unlisting (proper : read.IsProper) (leads : find start = .ok node)
    (isTree : node.IsTree)
    (oversteps : options.Oversteps read options.maxDepth start node names) :
    (examine options find start read).count (.tooDeep (start.joinAll names)) = 1 ∧
      examine options find start (read.unlisting (start.joinAll names)) =
        (examine options find start read).filter (· ≠ .tooDeep (start.joinAll names)) := by
  obtain ⟨entries, rfl⟩ := oversteps.exists_directory proper
  have areNames := oversteps.areNames proper isTree
  rw [examine, examine, leads]
  constructor
  · apply Finding.count_eq_one (pairwise_apart_walkWith proper isTree) _ rfl
    exact (tooDeep_mem_walkWith_iff proper isTree (by simp)).mpr ⟨names, oversteps, rfl⟩
  · apply walkWith_unlisting proper isTree
    intro others areOthers same
    have sameComponents := congrArg Path.components same
    rw [Path.components_joinAll start areNames, Path.components_joinAll start areOthers]
      at sameComponents
    obtain rfl : names = others :=
      List.map_injective_iff.mpr (fun _ _ => Component.name.inj)
        (List.append_cancel_left sameComponents)
    have length := oversteps.length_eq
    exact ⟨List.ne_nil_of_length_eq_add_one length, length⟩

end Examine

end LineTally
