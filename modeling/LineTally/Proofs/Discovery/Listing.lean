import LineTally.Proofs.Discovery.Sought
import LineTally.Proofs.Discovery.Subject
import LineTally.Proofs.Path.FirstSpelling
import Mathlib.Data.List.Perm.Basic

/-!
# The order in which directories are listed

The system may list the entries of a directory in any order.  The findings of a search come
in another order then, but they are the same.  Of equal paths that are spelled differently
discovery keeps the first one; they never come from one search, so which one is first does
not depend on the order either (`discovery_ignores_listing_order`).
-/

namespace LineTally

/-- Two ways to list a directory that differ in the order of the entries at most. -/
inductive ListedAlike :
    Except FileError (List EntryReading) → Except FileError (List EntryReading) → Prop where
  | error (error : FileError) : ListedAlike (.error error) (.error error)
  | ok {first second : List EntryReading} : first.Perm second →
      ListedAlike (.ok first) (.ok second)

namespace DirectoryReader

/-- Every directory is listed from its last entry to its first. -/
def backwards : DirectoryReader := fun path node =>
  (ofTree path node).map List.reverse

theorem listedAlike_backwards (path : Path) (node : Node) :
    ListedAlike (ofTree path node) (backwards path node) := by
  rw [backwards]
  cases ofTree path node with
  | error error => exact .error error
  | ok listed => exact .ok listed.reverse_perm.symm

end DirectoryReader

variable {options : WalkOptions} {start directory : Path} {first second : DirectoryReader}

/-! ## One search -/

theorem examineEntry_perm {search other : Path → Node → List Finding}
    (alike : ∀ path node, (search path node).Perm (other path node)) (reading : EntryReading) :
    (examineEntry options start search directory reading).Perm
      (examineEntry options start other directory reading) := by
  cases reading with
  | lost => rfl
  | untyped => rfl
  | entry name child =>
      cases child with
      | directory entries =>
          rw [examineEntry, examineEntry]
          split
          · rfl
          · exact alike _ _
      | file => rfl
      | link => rfl
      | device => rfl

/-- The order of the entries changes but the order of the findings. -/
theorem walkWith_perm (alike : ∀ path node, ListedAlike (first path node) (second path node))
    (budget depth : Nat) (path : Path) (node : Node) :
    (walkWith first options start budget depth path node).Perm
      (walkWith second options start budget depth path node) := by
  induction budget generalizing depth path node with
  | zero => rfl
  | succ budget inductionHypothesis =>
      rw [walkWith, walkWith]
      split
      · rfl
      · have here := alike path node
        generalize first path node = listed at here ⊢
        generalize second path node = listedOtherwise at here ⊢
        cases here with
        | error error => rfl
        | ok arranged =>
            apply arranged.flatMap
            intro reading _
            exact examineEntry_perm (inductionHypothesis (depth + 1)) reading

/-- Where paths are different, the order does not matter to which one is found. -/
theorem Path.find?_same_of_perm {paths others : List Path} (arranged : paths.Perm others)
    (different : paths.Pairwise fun path other => path.same other = false) (path : Path) :
    paths.find? path.same = others.find? path.same := by
  rw [← List.head?_filter, ← List.head?_filter]
  have equalPaths := arranged.filter path.same
  have differentStill := different.filter path.same
  cases found : paths.filter path.same with
  | nil =>
      rw [found] at equalPaths
      rw [equalPaths.nil_eq]
  | cons one rest =>
      cases rest with
      | nil =>
          rw [found] at equalPaths
          rw [List.singleton_perm.mp equalPaths]
      | cons another rest =>
          have oneMem : one ∈ paths.filter path.same := by simp [found]
          have anotherMem : another ∈ paths.filter path.same := by simp [found]
          have oneSame := Path.same_iff.mp (List.mem_filter.mp oneMem).2
          have anotherSame := Path.same_iff.mp (List.mem_filter.mp anotherMem).2
          rw [found] at differentStill
          have notSame := List.rel_of_pairwise_cons differentStill List.mem_cons_self
          rw [Path.same_iff.mpr (oneSame.symm.trans anotherSame)] at notSame
          contradiction

/-! ## All searches -/

namespace Discovery

variable {system : FileSystem} {paths : List Path}

theorem examine_perm (alike : ∀ path node, ListedAlike (first path node) (second path node))
    (find : Path → Except FileError Node) (path : Path) :
    (examine options find path first).Perm (examine options find path second) := by
  rw [examine, examine]
  cases find path with
  | error error => rfl
  | ok node =>
      cases node with
      | file content => rfl
      | directory entries => exact walkWith_perm alike _ _ _ _
      | link target => exact walkWith_perm alike _ _ _ _
      | device => exact walkWith_perm alike _ _ _ _

theorem findings_perm (alike : ∀ path node, ListedAlike (first path node) (second path node))
    (find : Path → Except FileError Node) (paths : List Path) :
    (findings options find paths first).Perm (findings options find paths second) :=
  List.Perm.flatMap_left paths fun path _ => examine_perm alike find path

/-- From one of the given paths no file is found twice. -/
theorem pairwise_files_examine (isTree : system.root.IsTree) (proper : first.IsProper)
    (path : Path) :
    ((examine options system.find path first).filterMap Finding.file?).Pairwise
      fun file other => file.same other = false := by
  rcases examine_cases options system.find path first with
    ⟨error, _, found⟩ | ⟨content, _, found⟩ | ⟨node, leads, _, found⟩
  · rw [found]
    exact List.Pairwise.nil
  · rw [found]
    exact List.pairwise_singleton _ _
  · rw [found]
    exact pairwise_files_walkWith proper (FileSystem.isTree_of_find isTree leads)

/-- Equal paths come from different given paths, and those are searched in order. -/
theorem find?_same_files_findings (isTree : system.root.IsTree) (proper : first.IsProper)
    (alike : ∀ path node, ListedAlike (first path node) (second path node))
    (paths : List Path) (file : Path) :
    ((findings options system.find paths first).filterMap Finding.file?).find? file.same =
      ((findings options system.find paths second).filterMap Finding.file?).find? file.same := by
  rw [findings, findings, List.filterMap_flatMap, List.filterMap_flatMap, List.find?_flatMap,
    List.find?_flatMap]
  congr 1
  funext path
  exact Path.find?_same_of_perm ((examine_perm alike system.find path).filterMap Finding.file?)
    (pairwise_files_examine isTree proper path) file

theorem ofFindings_eq_of_listed_alike (isTree : system.root.IsTree) (proper : first.IsProper)
    (alike : ∀ path node, ListedAlike (first path node) (second path node))
    (paths : List Path) :
    ofFindings (findings options system.find paths first) =
      ofFindings (findings options system.find paths second) := by
  have files : Path.dropRepeats (Path.sort
        ((findings options system.find paths first).filterMap Finding.file?)) =
      Path.dropRepeats (Path.sort
        ((findings options system.find paths second).filterMap Finding.file?)) :=
    Path.dropRepeats_sort_congr (find?_same_files_findings isTree proper alike paths)
  have errors : (findings options system.find paths first).countP Finding.isError =
      (findings options system.find paths second).countP Finding.isError :=
    (findings_perm alike system.find paths).countP_eq Finding.isError
  rw [ofFindings, ofFindings, files, errors]

/-- In whatever order the directories of a tree are listed, discovery yields the same files
in the same spelling and order and as many errors, and the log has the same records.  The
files are in strict order, so no two of them are equal. -/
theorem discovery_ignores_listing_order (options : WalkOptions) (system : FileSystem)
    (paths : List Path) (first second : DirectoryReader) (isTree : system.root.IsTree)
    (proper : first.IsProper)
    (alike : ∀ path node, ListedAlike (first path node) (second path node)) :
    discover options system.find paths first = discover options system.find paths second ∧
      (log options system.find paths first).Perm (log options system.find paths second) ∧
      ∀ found, discover options system.find paths first = some found →
        found.files.Pairwise Path.Before := by
  have sameDiscovery : discover options system.find paths first =
      discover options system.find paths second := by
    rw [discover, discover, ofFindings_eq_of_listed_alike isTree proper alike]
  refine ⟨sameDiscovery, ?_, ?_⟩
  · rw [log, log, sameDiscovery]
    apply List.Perm.append_right
    exact (findings_perm alike system.find paths).filterMap _
  · intro found discovered
    rw [discover, Option.ite_none_right_eq_some] at discovered
    obtain ⟨_, same⟩ := discovered
    cases same
    exact Path.pairwise_before_dropRepeats_sort _

/-- Two files in a directory. -/
def twoFiles : FileSystem :=
  .ofEntries [(.ofText "d/a.rs".toList, .file []), (.ofText "d/b.rs".toList, .file [])]

/-- Every directory is listed backwards; the directory is given in two spellings. -/
theorem discovery_ignores_backward_listing :
    twoFiles.root.IsTree ∧ DirectoryReader.ofTree.IsProper ∧
      (∀ path node, ListedAlike (DirectoryReader.ofTree path node)
        (DirectoryReader.backwards path node)) ∧
      discover { excludedNames := [] } twoFiles.find [.ofText "d/.".toList, .ofText "d".toList]
          .ofTree =
        discover { excludedNames := [] } twoFiles.find [.ofText "d/.".toList, .ofText "d".toList]
          .backwards ∧
      (log { excludedNames := [] } twoFiles.find [.ofText "d/.".toList, .ofText "d".toList]
          .ofTree).Perm
        (log { excludedNames := [] } twoFiles.find [.ofText "d/.".toList, .ofText "d".toList]
          .backwards) ∧
      ∀ found, discover { excludedNames := [] } twoFiles.find
          [.ofText "d/.".toList, .ofText "d".toList] .ofTree = some found →
        found.files.Pairwise Path.Before := by
  have isTree : twoFiles.root.IsTree := Node.isTree_of_everyDirectory (by decide +kernel)
  exact ⟨isTree, DirectoryReader.isProper_ofTree, DirectoryReader.listedAlike_backwards,
    discovery_ignores_listing_order _ _ _ _ _ isTree DirectoryReader.isProper_ofTree
      DirectoryReader.listedAlike_backwards⟩

end Discovery

end LineTally
