import LineTally.Proofs.Discovery.Sought
import LineTally.Proofs.Discovery.Subject
import LineTally.Proofs.FileSystem.Location
import LineTally.Proofs.Path.FirstSpelling

/-!
# Given paths that overlap

The given paths may overlap in any way: a directory and what lies in it, or one directory in
several spellings.  Repeats are told by the components of the paths that are found, and all
spellings of a file have the same components, but for a single dot at the start.  So a file is
listed once for all given paths that start with a dot and once for all that do not
(`files_lead_apart`).
-/

namespace LineTally

namespace Path

variable {path : Path} {names : List Bytes}

theorem isAbsolute_joinAll (areNames : ∀ n ∈ names, IsName n)
    (relative : path.isAbsolute = false) : (path.joinAll names).isAbsolute = false := by
  rw [← Bool.not_eq_true, ← root_mem_components_iff] at relative ⊢
  rw [components_joinAll path areNames, List.mem_append, not_or]
  exact ⟨relative, by simp⟩

theorem parent_not_mem_components_joinAll (areNames : ∀ n ∈ names, IsName n)
    (noParents : Component.parent ∉ path.components) :
    Component.parent ∉ (path.joinAll names).components := by
  rw [components_joinAll path areNames, List.mem_append, not_or]
  exact ⟨noParents, by simp⟩

theorem startsAtDot_joinAll (areNames : ∀ n ∈ names, IsName n) :
    (path.joinAll names).startsAtDot = path.startsAtDot := by
  rw [startsAtDot, startsAtDot, components_joinAll path areNames]
  cases path.components with
  | nil => cases names <;> simp
  | cons component rest => rfl

end Path

namespace Discovery

variable {options : WalkOptions} {system : FileSystem} {paths : List Path} {file : Path}

/-- A file that is found is a given path, or one with names added. -/
theorem exists_names_of_file_mem_findings (isTree : system.root.IsTree)
    (found : .file file ∈ findings options system.find paths) :
    ∃ path ∈ paths, ∃ names : List Bytes, (∀ n ∈ names, IsName n) ∧
      file = path.joinAll names := by
  obtain ⟨path, given, found⟩ := List.mem_flatMap.mp found
  refine ⟨path, given, ?_⟩
  obtain ⟨content, _, rfl⟩ | ⟨entries, leads, found⟩ := file_mem_examine_iff.mp found
  · exact ⟨[], by simp, rfl⟩
  · have subtree := FileSystem.isTree_of_find isTree leads
    exact exists_names_of_mem_walkWith DirectoryReader.isProper_ofTree subtree found rfl

/-- Where two relative paths that never go up lead to one place, they differ in a dot at the
start at most. -/
theorem same_of_destination_eq {first second : Path} (noLinks : system.root.HasNoLinks)
    (firstRelative : first.isAbsolute = false) (secondRelative : second.isAbsolute = false)
    (firstNoParents : Component.parent ∉ first.components)
    (secondNoParents : Component.parent ∉ second.components)
    {place : List Bytes} (firstLeads : system.destination first = .ok place)
    (secondLeads : system.destination second = .ok place)
    (startAlike : first.startsAtDot = second.startsAtDot) : first.same second = true := by
  have start : ∀ {path : Path}, path.isAbsolute = false →
      system.startOf path = system.workingDirectory := by
    intro path relative
    rw [FileSystem.startOf, relative]
    rfl
  have firstPlace := FileSystem.locateFrom_eq_foldl noLinks firstLeads
  have secondPlace := FileSystem.locateFrom_eq_foldl noLinks secondLeads
  rw [foldl_stepFrom (Path.dots_not_mem_steps firstNoParents), start firstRelative] at firstPlace
  rw [foldl_stepFrom (Path.dots_not_mem_steps secondNoParents), start secondRelative]
    at secondPlace
  have sameNames := List.append_cancel_left (firstPlace.symm.trans secondPlace)
  rw [Path.same_iff, Path.components_of_relative firstRelative firstNoParents,
    Path.components_of_relative secondRelative secondNoParents, startAlike, sameNames]

/-- In a tree without links, of two listed paths that lead to one place just one starts with a
dot, however the given paths overlap.  So no file is listed twice if all given paths start
alike. -/
theorem files_lead_apart (options : WalkOptions) (system : FileSystem) (paths : List Path)
    (isTree : system.root.IsTree) (noLinks : system.root.HasNoLinks)
    (relative : ∀ path ∈ paths, path.isAbsolute = false)
    (noParents : ∀ path ∈ paths, Component.parent ∉ path.components)
    (found : Discovery) (discovered : discover options system.find paths = some found) :
    (found.files.Pairwise fun first second => ∀ place,
        system.destination first = .ok place → system.destination second = .ok place →
          first.startsAtDot ≠ second.startsAtDot) ∧
      ((∀ first ∈ paths, ∀ second ∈ paths, first.startsAtDot = second.startsAtDot) →
        found.files.Pairwise fun first second => ∀ place,
          system.destination first = .ok place → system.destination second ≠ .ok place) := by
  rw [discover, Option.ite_none_right_eq_some] at discovered
  obtain ⟨_, same⟩ := discovered
  cases same
  have origin : ∀ file ∈ (ofFindings (findings options system.find paths)).files,
      file.isAbsolute = false ∧ Component.parent ∉ file.components ∧
        ∃ path ∈ paths, file.startsAtDot = path.startsAtDot := by
    intro file listed
    have fileFound := mem_filterMap_file?_iff.mp (Path.mem_of_mem_dropRepeats_sort listed)
    obtain ⟨path, given, names, areNames, rfl⟩ := exists_names_of_file_mem_findings isTree fileFound
    exact ⟨Path.isAbsolute_joinAll areNames (relative path given),
      Path.parent_not_mem_components_joinAll areNames (noParents path given),
      path, given, Path.startsAtDot_joinAll areNames⟩
  have apart : (ofFindings (findings options system.find paths)).files.Pairwise
      fun first second => ∀ place, system.destination first = .ok place →
        system.destination second = .ok place → first.startsAtDot ≠ second.startsAtDot := by
    apply (Path.pairwise_before_dropRepeats_sort _).imp_of_mem
    intro first second firstListed secondListed before place firstLeads secondLeads startAlike
    obtain ⟨firstRelative, firstNoParents, _⟩ := origin first firstListed
    obtain ⟨secondRelative, secondNoParents, _⟩ := origin second secondListed
    have equal := same_of_destination_eq noLinks firstRelative secondRelative firstNoParents
      secondNoParents firstLeads secondLeads startAlike
    rw [before.not_same] at equal
    contradiction
  refine ⟨apart, fun startAlike => apart.imp_of_mem ?_⟩
  intro first second firstListed secondListed different place firstLeads secondLeads
  obtain ⟨_, _, path, given, firstStart⟩ := origin first firstListed
  obtain ⟨_, _, other, otherGiven, secondStart⟩ := origin second secondListed
  apply different place firstLeads secondLeads
  rw [firstStart, secondStart, startAlike path given other otherGiven]

/-- Discovery of files that come in order. -/
theorem discover_of_sorted {files : List Path}
    (someExists : paths.any (doesExist system.find) = true)
    (found : (findings options system.find paths).filterMap Finding.file? = files)
    (sorted : files.Pairwise (Path.le · ·)) :
    discover options system.find paths = some
      { files := Path.dropRepeats files
        errors := (findings options system.find paths).countP Finding.isError } := by
  rw [discover, if_pos someExists, ofFindings, found, Path.sort_of_pairwise sorted]

/-- A file in a directory. -/
def fileInDirectory : FileSystem :=
  .ofEntries [(.ofText "d/a.rs".toList, .file [])]

/-- The directory in two spellings, and the file in it. -/
def overlappingPaths : List Path :=
  [.ofText "d".toList, .ofText "d//.".toList, .ofText "d/a.rs".toList]

/-- None of the given paths starts with a dot, and the file is listed once. -/
theorem files_lead_apart_in_directory :
    fileInDirectory.root.IsTree ∧ fileInDirectory.root.HasNoLinks ∧
      (∀ path ∈ overlappingPaths, path.isAbsolute = false) ∧
      (∀ path ∈ overlappingPaths, Component.parent ∉ path.components) ∧
      discover { excludedNames := [] } fileInDirectory.find overlappingPaths =
        some ⟨[.ofText "d/a.rs".toList], 0⟩ ∧
      (∀ first ∈ overlappingPaths, ∀ second ∈ overlappingPaths,
        first.startsAtDot = second.startsAtDot) ∧
      ([Path.ofText "d/a.rs".toList].Pairwise fun first second => ∀ place,
        fileInDirectory.destination first = .ok place →
          fileInDirectory.destination second = .ok place →
            first.startsAtDot ≠ second.startsAtDot) ∧
      [Path.ofText "d/a.rs".toList].Pairwise fun first second => ∀ place,
        fileInDirectory.destination first = .ok place →
          fileInDirectory.destination second ≠ .ok place := by
  have isTree : fileInDirectory.root.IsTree := Node.isTree_of_everyDirectory (by decide +kernel)
  have noLinks : fileInDirectory.root.HasNoLinks :=
    Node.hasNoLinks_of_everyDirectory (by decide +kernel) (by decide +kernel)
  have relative : ∀ path ∈ overlappingPaths, path.isAbsolute = false := by decide +kernel
  have noParents : ∀ path ∈ overlappingPaths, Component.parent ∉ path.components := by
    decide +kernel
  have discovered : discover { excludedNames := [] } fileInDirectory.find overlappingPaths =
      some ⟨[.ofText "d/a.rs".toList], 0⟩ :=
    (discover_of_sorted (by decide +kernel) rfl (by decide +kernel)).trans (by decide +kernel)
  have startAlike : ∀ first ∈ overlappingPaths, ∀ second ∈ overlappingPaths,
      first.startsAtDot = second.startsAtDot := by decide +kernel
  have apart := files_lead_apart _ _ _ isTree noLinks relative noParents _ discovered
  exact ⟨isTree, noLinks, relative, noParents, discovered, startAlike, apart.1, apart.2 startAlike⟩

/-- The working directory is given beside the file, and the file is listed twice. -/
theorem file_listed_with_dot_and_without :
    fileInDirectory.root.IsTree ∧ fileInDirectory.root.HasNoLinks ∧
      discover { excludedNames := [] } fileInDirectory.find
          [.ofText ".".toList, .ofText "d/a.rs".toList] =
        some ⟨[.ofText "./d/a.rs".toList, .ofText "d/a.rs".toList], 0⟩ ∧
      fileInDirectory.destination (.ofText "./d/a.rs".toList) =
        .ok [FileSystem.workingName, Utf8.encode "d".toList, Utf8.encode "a.rs".toList] ∧
      fileInDirectory.destination (.ofText "d/a.rs".toList) =
        .ok [FileSystem.workingName, Utf8.encode "d".toList, Utf8.encode "a.rs".toList] :=
  ⟨Node.isTree_of_everyDirectory (by decide +kernel),
    Node.hasNoLinks_of_everyDirectory (by decide +kernel) (by decide +kernel),
    (discover_of_sorted (by decide +kernel) rfl (by decide +kernel)).trans (by decide +kernel),
    by rfl, by rfl⟩

end Discovery

end LineTally
