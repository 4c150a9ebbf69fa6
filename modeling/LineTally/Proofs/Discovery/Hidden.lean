import LineTally.Proofs.Discovery.Depth
import LineTally.Proofs.Discovery.Overlap
import LineTally.Proofs.Discovery.Pruning
import LineTally.Proofs.Discovery.Warnings

/-!
# Excluded directories are not seen

Below the given paths a directory with an excluded name might as well not exist: the search
yields the same without it, but for one thing.  It tells first whether a directory is too deep
and then whether it is excluded, so an excluded directory one level too deep is an error
(`discover_without_hidden`, `excluded_directory_is_too_deep`).
-/

namespace LineTally

/-- A directory at this place has an excluded name and lies below one of the given paths. -/
def WalkOptions.hides (options : WalkOptions) (system : FileSystem) (paths : List Path)
    (place : List Bytes) : Bool :=
  place.getLast?.any options.excludedNames.contains &&
    paths.any fun path =>
      match system.locate path with
      | .ok base => base.isPrefixOf place && base ≠ place
      | .error _ => false

/-- Whether a finding is about a directory with an excluded name. -/
def Finding.isHidden (options : WalkOptions) : Finding → Bool
  | .tooDeep path => options.excludes path
  | .excluded path => options.excludes path
  | _ => false

namespace Discovery

variable {options : WalkOptions} {system : FileSystem} {paths : List Path} {path : Path}
  {base trail : List Bytes}

/-- No directory that is excluded is one level too deep. -/
def ExcludesWithinDepth (options : WalkOptions) (system : FileSystem) (paths : List Path) : Prop :=
  ∀ path ∈ paths, ∀ node, system.find path = .ok node →
    ∀ names, options.Oversteps .ofTree options.maxDepth path node names →
      ∀ name, names.getLast? = some name → name ∉ options.excludedNames

/-- Below a given path the places that are hidden are told by the paths found there. -/
theorem hides_append (given : path ∈ paths) (located : system.locate path = .ok base)
    (areNames : ∀ name ∈ trail, IsName name) (notStart : trail ≠ []) :
    options.hides system paths (base ++ trail) = options.excludes (path.joinAll trail) := by
  obtain ⟨front, name, rfl⟩ := (List.eq_nil_or_concat' trail).resolve_left notStart
  have isName := areNames name (by simp)
  have lies : (paths.any fun path =>
      match system.locate path with
      | .ok place => place.isPrefixOf (base ++ (front ++ [name])) &&
          place ≠ base ++ (front ++ [name])
      | .error _ => false) = true := by
    rw [List.any_eq_true]
    refine ⟨path, given, ?_⟩
    simp [located]
  rw [WalkOptions.hides, lies, Bool.and_true, WalkOptions.excludes, Path.joinAll_append,
    Path.joinAll_cons, Path.joinAll_nil, Path.fileName?_join _ isName, ← List.append_assoc,
    List.getLast?_concat]

/-- The search makes one finding of a hidden directory and does not look into it. -/
theorem stopsAtHidden (given : path ∈ paths) (located : system.locate path = .ok base) :
    StopsAtMarked options path base (options.hides system paths) (Finding.isHidden options) := by
  constructor
  case atMarked =>
    intro trail budget below areNames notStart _ isMarked finding member
    rw [hides_append given located areNames notStart] at isMarked
    cases budget with
    | zero =>
        rw [walk, walkWith_zero, List.mem_singleton] at member
        rw [member]
        exact isMarked
    | succ budget =>
        have later : 0 < trail.length := List.length_pos_iff.mpr notStart
        rw [walk_succ, if_pos (by simp [later, isMarked]), List.mem_singleton] at member
        rw [member]
        exact isMarked
  case elsewhere =>
    intro trail areNames notStart unmarked
    rw [hides_append given located areNames notStart] at unmarked
    exact ⟨unmarked, unmarked⟩
  case file => exact fun _ => rfl
  case unreadable => exact fun _ _ => rfl

/-- Without the hidden directories just the findings about them are missing. -/
theorem examine_without (isTree : system.root.IsTree) (noLinks : system.root.HasNoLinks)
    (given : path ∈ paths) (outside : system.KeepsOutOf (options.hides system paths) path) :
    examine options (system.without (options.hides system paths)).find path =
      (examine options system.find path).filter (!·.isHidden options) := by
  rw [examine, examine]
  obtain ⟨error, found, foundWithout⟩ | ⟨place, node, located, found, foundWithout⟩ :=
    FileSystem.find_without noLinks outside
  · rw [found, foundWithout]
    rfl
  · have subtree := FileSystem.isTree_of_find isTree found
    have searched := @walk_without options path place [] _ _ (options.maxDepth + 1)
      (stopsAtHidden given located) node subtree (by simp) rfl (by simp)
    rw [List.append_nil] at searched
    rw [found, foundWithout]
    cases node with
    | file content =>
        rw [Node.without_of_not_isDirectory rfl]
        rfl
    | directory entries =>
        rw [Node.without_directory] at searched ⊢
        exact searched
    | link target =>
        rw [Node.without_of_not_isDirectory rfl] at searched ⊢
        exact searched
    | device =>
        rw [Node.without_of_not_isDirectory rfl] at searched ⊢
        exact searched

theorem findings_without (isTree : system.root.IsTree) (noLinks : system.root.HasNoLinks)
    (outside : ∀ path ∈ paths, system.KeepsOutOf (options.hides system paths) path) :
    findings options (system.without (options.hides system paths)).find paths =
      (findings options system.find paths).filter (!·.isHidden options) := by
  rw [findings, findings, List.filter_flatMap]
  apply List.flatMap_congr
  intro path given
  exact examine_without isTree noLinks given (outside path given)

theorem doesExist_without (noLinks : system.root.HasNoLinks) {marked : List Bytes → Bool}
    (outside : system.KeepsOutOf marked path) :
    doesExist (system.without marked).find path = doesExist system.find path := by
  rw [doesExist, doesExist]
  obtain ⟨error, found, foundWithout⟩ | ⟨place, node, _, found, foundWithout⟩ :=
    FileSystem.find_without noLinks outside
  · rw [found, foundWithout]
  · rw [found, foundWithout]
    rfl

/-- No file is hidden. -/
theorem filterMap_file?_filter (found : List Finding) :
    (found.filter (!·.isHidden options)).filterMap Finding.file? =
      found.filterMap Finding.file? := by
  rw [List.filterMap_filter]
  congr 1
  funext finding
  cases finding with
  | file path => rfl
  | _ => simp [Finding.file?]

/-- Whether an excluded directory is too deep is seen in what the search finds. -/
theorem excludesWithinDepth_iff (isTree : system.root.IsTree) :
    ExcludesWithinDepth options system paths ↔
      ∀ file, .tooDeep file ∈ findings options system.find paths →
        options.excludes file = false := by
  have subtree : ∀ {path : Path} node, system.find path = .ok node → node.IsTree :=
    fun _ found => FileSystem.isTree_of_find isTree found
  have lastTells : ∀ {path : Path} {node : Node} {names : List Bytes} {name : Bytes},
      system.find path = .ok node → options.Oversteps .ofTree options.maxDepth path node names →
        names.getLast? = some name →
          (options.excludes (path.joinAll names) = true ↔ name ∈ options.excludedNames) := by
    intro path node names name found oversteps last
    obtain ⟨front, rfl⟩ := List.getLast?_eq_some_iff.mp last
    rw [Path.joinAll_append]
    exact WalkOptions.excludes_join_iff _
      (oversteps.areNames DirectoryReader.isProper_ofTree (subtree _ found) name (by simp))
  constructor
  · intro within file found
    obtain ⟨path, given, found⟩ := List.mem_flatMap.mp found
    obtain ⟨node, names, leads, oversteps, rfl⟩ :=
      (tooDeep_mem_examine_iff DirectoryReader.isProper_ofTree subtree).mp found
    have notEmpty : names ≠ [] := List.ne_nil_of_length_eq_add_one oversteps.length_eq
    have last := List.getLast?_eq_some_getLast notEmpty
    rw [← Bool.not_eq_true, lastTells leads oversteps last]
    exact within path given node leads names oversteps _ last
  · intro notExcluded path given node leads names oversteps name last excluded
    have found : .tooDeep (path.joinAll names) ∈ findings options system.find paths :=
      List.mem_flatMap.mpr ⟨path, given,
        (tooDeep_mem_examine_iff DirectoryReader.isProper_ofTree subtree).mpr
          ⟨node, names, leads, oversteps, rfl⟩⟩
    rw [← lastTells leads oversteps last, notExcluded _ found] at excluded
    contradiction

/-- Without the hidden directories discovery yields the same, but for an error for each of
them that is too deep. -/
theorem discover_eq_map_addErrors (isTree : system.root.IsTree)
    (noLinks : system.root.HasNoLinks)
    (outside : ∀ path ∈ paths, system.KeepsOutOf (options.hides system paths) path) :
    discover options system.find paths =
      (discover options (system.without (options.hides system paths)).find paths).map
        (·.addErrors ((findings options system.find paths).countP
          fun finding => finding.isError && finding.isHidden options)) := by
  have exist : paths.any (doesExist (system.without (options.hides system paths)).find) =
      paths.any (doesExist system.find) := by
    rw [Bool.eq_iff_iff, List.any_eq_true, List.any_eq_true]
    refine exists_congr fun path => and_congr_right fun given => ?_
    rw [doesExist_without noLinks (outside path given)]
  have errors : (findings options system.find paths).countP Finding.isError =
      ((findings options system.find paths).filter (!·.isHidden options)).countP Finding.isError +
        (findings options system.find paths).countP
          fun finding => finding.isError && finding.isHidden options := by
    rw [List.countP_eq_countP_filter_add _ _ (Finding.isHidden options), List.countP_filter,
      Nat.add_comm]
  rw [discover, discover, exist, findings_without isTree noLinks outside]
  split
  · rw [Option.map_some, ofFindings, ofFindings, addErrors, filterMap_file?_filter, ← errors]
  · rfl

/-- In a tree without links, directories with excluded names below the given paths change
nothing that is found: without them discovery yields the same files, and as many errors but
for those of them that are too deep.  If none is too deep, all is the same, the warnings
included. -/
theorem discover_without_hidden (options : WalkOptions) (system : FileSystem) (paths : List Path)
    (isTree : system.root.IsTree) (noLinks : system.root.HasNoLinks)
    (outside : ∀ path ∈ paths, system.KeepsOutOf (options.hides system paths) path) :
    (discover options (system.without (options.hides system paths)).find paths).map (·.files) =
        (discover options system.find paths).map (·.files) ∧
      (ExcludesWithinDepth options system paths →
        discover options (system.without (options.hides system paths)).find paths =
            discover options system.find paths ∧
          Log.warnings (log options (system.without (options.hides system paths)).find paths) =
            Log.warnings (log options system.find paths)) := by
  have whole := discover_eq_map_addErrors isTree noLinks outside
  constructor
  · rw [whole, Option.map_map]
    rfl
  · intro within
    rw [excludesWithinDepth_iff isTree] at within
    have seen : ∀ finding ∈ findings options system.find paths, finding.warns = true →
        finding.isHidden options = false := by
      intro finding member warned
      cases finding with
      | tooDeep path => exact within path member
      | excluded path => contradiction
      | _ => rfl
    constructor
    · have none : (findings options system.find paths).countP
          (fun finding => finding.isError && finding.isHidden options) = 0 := by
        rw [List.countP_eq_zero]
        intro finding member both
        rw [Bool.and_eq_true] at both
        have warned : finding.warns = true := by
          rw [Finding.warns, both.1, Bool.or_true]
        rw [seen finding member warned] at both
        exact absurd both.2 Bool.false_ne_true
      rw [whole, none]
      exact Option.map_id'.symm
    · rw [warnings_log, warnings_log, findings_without isTree noLinks outside, List.filter_filter]
      congr 1
      apply List.filter_congr
      intro finding member
      cases warned : finding.warns with
      | false => rfl
      | true => rw [seen finding member warned]; rfl

/-- A file, and another one in a directory with an excluded name. -/
def fileBesideVendored : FileSystem :=
  .ofEntries [(.ofText "a.rs".toList, .file []), (.ofText "vendor/v.rs".toList, .file [])]

/-- A search that leaves the directory out. -/
def withoutVendored (maxDepth : Nat) : WalkOptions :=
  { excludedNames := [Utf8.encode "vendor".toList], maxDepth := maxDepth }

/-- Where the excluded directory is not too deep, nothing tells it from one that is not
there. -/
theorem discover_without_vendored :
    fileBesideVendored.root.IsTree ∧ fileBesideVendored.root.HasNoLinks ∧
      (∀ path ∈ [Path.ofText ".".toList], fileBesideVendored.KeepsOutOf
        ((withoutVendored 1).hides fileBesideVendored [.ofText ".".toList]) path) ∧
      ExcludesWithinDepth (withoutVendored 1) fileBesideVendored [.ofText ".".toList] ∧
      discover (withoutVendored 1) (fileBesideVendored.without
            ((withoutVendored 1).hides fileBesideVendored [.ofText ".".toList])).find
          [.ofText ".".toList] =
        discover (withoutVendored 1) fileBesideVendored.find [.ofText ".".toList] := by
  have isTree : fileBesideVendored.root.IsTree :=
    Node.isTree_of_everyDirectory (by decide +kernel)
  have noLinks : fileBesideVendored.root.HasNoLinks :=
    Node.hasNoLinks_of_everyDirectory (by decide +kernel) (by decide +kernel)
  have outside : ∀ path ∈ [Path.ofText ".".toList], fileBesideVendored.KeepsOutOf
      ((withoutVendored 1).hides fileBesideVendored [.ofText ".".toList]) path := by
    decide +kernel
  have found : findings (withoutVendored 1) fileBesideVendored.find [.ofText ".".toList] =
      [.file (.ofText "./a.rs".toList), .excluded (.ofText "./vendor".toList)] := by
    decide +kernel
  have within : ExcludesWithinDepth (withoutVendored 1) fileBesideVendored
      [.ofText ".".toList] := by
    rw [excludesWithinDepth_iff isTree, found]
    simp
  have alike := discover_without_hidden (withoutVendored 1) fileBesideVendored
    [.ofText ".".toList] isTree noLinks outside
  exact ⟨isTree, noLinks, outside, within, (alike.2 within).1⟩

/-- Where the excluded directory is too deep, it is an error and the log warns of it. -/
theorem excluded_directory_is_too_deep :
    fileBesideVendored.root.IsTree ∧ fileBesideVendored.root.HasNoLinks ∧
      (∀ path ∈ [Path.ofText ".".toList], fileBesideVendored.KeepsOutOf
        ((withoutVendored 0).hides fileBesideVendored [.ofText ".".toList]) path) ∧
      discover (withoutVendored 0) fileBesideVendored.find [.ofText ".".toList] =
        some ⟨[.ofText "./a.rs".toList], 1⟩ ∧
      Log.warnings (log (withoutVendored 0) fileBesideVendored.find [.ofText ".".toList]) =
        [⟨.warn, .discovery, "Maximum directory depth (0) reached at ./vendor".toList⟩] ∧
      discover (withoutVendored 0) (fileBesideVendored.without
            ((withoutVendored 0).hides fileBesideVendored [.ofText ".".toList])).find
          [.ofText ".".toList] =
        some ⟨[.ofText "./a.rs".toList], 0⟩ :=
  ⟨Node.isTree_of_everyDirectory (by decide +kernel),
    Node.hasNoLinks_of_everyDirectory (by decide +kernel) (by decide +kernel),
    by decide +kernel,
    (discover_of_sorted (by decide +kernel) rfl (by decide +kernel)).trans (by decide +kernel),
    (warnings_log _ _ _).trans (by decide +kernel),
    (discover_of_sorted (by decide +kernel) rfl (by decide +kernel)).trans (by decide +kernel)⟩

end Discovery

end LineTally
