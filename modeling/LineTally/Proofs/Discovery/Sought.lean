import LineTally.Discovery.Basic
import LineTally.Proofs.FileSystem.Tree
import LineTally.Proofs.Path.Repeats

/-!
# The files that are sought

What a search has to find is said without the search: a file is sought if it is given, or
if names lead to it from a directory that is given, past no directory that is excluded and
not too deep, and if its name or its path from there matches.  A search of a tree finds
the sought files and no other (`discover_finds_sought`).
-/

namespace LineTally

namespace WalkOptions

variable {options : WalkOptions}

/-- The search may go through these directories, `budget` levels at most. -/
structure Enters (options : WalkOptions) (budget : Nat) (dirs : List Bytes) : Prop where
  length_le : dirs.length ≤ budget
  recursive : options.nonRecursive = true → dirs = []
  not_excluded : ∀ dir ∈ dirs, dir ∉ options.excludedNames

/-- The filespec, if there is one, matches the name of a file, or the names that lead to
it with slashes between them and for backslashes. -/
def Wants (options : WalkOptions) (dirs : List Bytes) (name : Bytes) : Prop :=
  ∀ pattern, options.filespec = some pattern →
    (∃ text, Utf8.decode? name = some text ∧ pattern.isMatch text = true) ∨
      ∃ text, Utf8.decode? ([slash].intercalate (dirs ++ [name])) = some text ∧
        pattern.isMatch (withSlashes text) = true

@[simp]
theorem enters_nil (options : WalkOptions) (budget : Nat) : options.Enters budget [] :=
  ⟨Nat.zero_le _, fun _ => rfl, by simp⟩

theorem not_enters_cons_zero (dir : Bytes) (dirs : List Bytes) :
    ¬ options.Enters 0 (dir :: dirs) := by
  intro enters
  exact absurd enters.length_le (Nat.not_succ_le_zero _)

theorem enters_cons_iff {budget : Nat} {dir : Bytes} {dirs : List Bytes} :
    options.Enters (budget + 1) (dir :: dirs) ↔
      options.nonRecursive = false ∧ dir ∉ options.excludedNames ∧
        options.Enters budget dirs := by
  constructor
  · rintro ⟨lengthLe, recursive, notExcluded⟩
    have searched : options.nonRecursive = false := by
      rw [← Bool.not_eq_true]
      intro flat
      exact absurd (recursive flat) (List.cons_ne_nil _ _)
    obtain ⟨first, later⟩ := List.forall_mem_cons.mp notExcluded
    exact ⟨searched, first, Nat.le_of_succ_le_succ lengthLe, by simp [searched], later⟩
  · rintro ⟨searched, first, lengthLe, _, later⟩
    exact ⟨Nat.succ_le_succ lengthLe, by simp [searched], List.forall_mem_cons.mpr ⟨first, later⟩⟩

/-- A directory is told by its name whatever its path. -/
theorem excludes_join_iff (path : Path) {name : Bytes} (isName : IsName name) :
    options.excludes (path.join name) = true ↔ name ∈ options.excludedNames := by
  rw [excludes, Path.fileName?_join path isName]
  simp

/-- However the path of the start is written, a file is matched by its name and by the
names that lead to it. -/
theorem accepts_joinAll_iff {start : Path} (notEmpty : start.bytes ≠ []) {dirs : List Bytes}
    {name : Bytes} (areNames : ∀ n ∈ dirs ++ [name], IsName n) :
    options.accepts start (start.joinAll (dirs ++ [name])) = true ↔ options.Wants dirs name := by
  have isName : IsName name := areNames name (by simp)
  have fileName : (start.joinAll (dirs ++ [name])).fileName? = some name := by
    rw [Path.joinAll_append]
    exact Path.fileName?_join _ isName
  have relative := Path.stripPrefix?_joinAll notEmpty (by simp) areNames
  rw [accepts, fileName, relative, Wants]
  cases options.filespec with
  | none => simp
  | some pattern =>
      simp only [Option.all_some, Option.bind_some, Bool.or_eq_true, Option.any_eq_true,
        Option.some.injEq, forall_eq']

end WalkOptions

/-! ## Searching a tree -/

section Walk

variable {options : WalkOptions} {start here path : Path} {budget depth : Nat}
  {entries : List (Bytes × Node)}

/-- A file in a directory itself. -/
def IsFileIn (options : WalkOptions) (start here : Path) (entries : List (Bytes × Node))
    (path : Path) : Prop :=
  ∃ name content, (name, .file content) ∈ entries ∧
    options.accepts start path = true ∧ path = here.join name

/-- A file in a directory or below it, at most `budget` levels. -/
def IsFileBelow (options : WalkOptions) (start : Path) (budget : Nat) (here : Path)
    (entries : List (Bytes × Node)) (path : Path) : Prop :=
  ∃ dirs name content, (Node.directory entries).below? (dirs ++ [name]) = some (.file content) ∧
    options.Enters budget dirs ∧ options.accepts start path = true ∧
    path = here.joinAll (dirs ++ [name])

theorem isFileIn_iff (isTree : (Node.directory entries).IsTree) :
    IsFileIn options start here entries path ↔
      ∃ name content, (Node.directory entries).below? [name] = some (.file content) ∧
        options.accepts start path = true ∧ path = here.join name := by
  refine exists_congr fun name => exists_congr fun content => and_congr_left fun _ => ?_
  rw [Node.below?_singleton, Node.child?_eq_some_iff isTree.nodup]

theorem IsFileIn.isFileBelow (direct : IsFileIn options start here entries path)
    (isTree : (Node.directory entries).IsTree) (budget : Nat) :
    IsFileBelow options start budget here entries path := by
  obtain ⟨name, content, found, accepted, pathEq⟩ := (isFileIn_iff isTree).mp direct
  exact ⟨[], name, content, found, WalkOptions.enters_nil options budget, accepted, pathEq⟩

theorem isFileBelow_zero_iff (isTree : (Node.directory entries).IsTree) :
    IsFileBelow options start 0 here entries path ↔ IsFileIn options start here entries path := by
  refine ⟨?_, fun direct => direct.isFileBelow isTree 0⟩
  rintro ⟨dirs, name, content, found, enters, accepted, pathEq⟩
  cases dirs with
  | nil => exact (isFileIn_iff isTree).mpr ⟨name, content, found, accepted, pathEq⟩
  | cons dir dirs => exact absurd enters (WalkOptions.not_enters_cons_zero dir dirs)

theorem isFileBelow_succ_iff (isTree : (Node.directory entries).IsTree) :
    IsFileBelow options start (budget + 1) here entries path ↔
      IsFileIn options start here entries path ∨
        ∃ name below, (name, .directory below) ∈ entries ∧ options.nonRecursive = false ∧
          name ∉ options.excludedNames ∧
          IsFileBelow options start budget (here.join name) below path := by
  constructor
  · rintro ⟨dirs, name, content, found, enters, accepted, pathEq⟩
    cases dirs with
    | nil => exact .inl ((isFileIn_iff isTree).mpr ⟨name, content, found, accepted, pathEq⟩)
    | cons dir dirs =>
        obtain ⟨searched, notExcluded, enters⟩ := WalkOptions.enters_cons_iff.mp enters
        rw [List.cons_append, Node.below?_cons, Option.bind_eq_some_iff] at found
        obtain ⟨child, listed, found⟩ := found
        obtain ⟨below, rfl⟩ := Node.exists_directory_of_below? (by simp) found
        exact .inr ⟨dir, below, Node.mem_of_child? listed, searched, notExcluded,
          dirs, name, content, found, enters, accepted, pathEq⟩
  · rintro (direct | ⟨dir, below, listed, searched, notExcluded, dirs, name, content, found,
      enters, accepted, pathEq⟩)
    · exact direct.isFileBelow isTree (budget + 1)
    · refine ⟨dir :: dirs, name, content, ?_, ?_, accepted, pathEq⟩
      · rw [List.cons_append, isTree.below?_of_mem listed, found]
      · exact WalkOptions.enters_cons_iff.mpr ⟨searched, notExcluded, enters⟩

/-- Nothing is found where there is no directory. -/
theorem file_not_mem_walk {node : Node} (notDirectory : ∀ entries, node ≠ .directory entries) :
    .file path ∉ walk options start budget depth here node := by
  cases budget with
  | zero => simp
  | succ budget =>
      rw [walk_succ]
      cases node with
      | directory entries => exact absurd rfl (notDirectory entries)
      | _ =>
          split
          · simp
          · split <;> simp

/-- One level of the search. -/
theorem file_mem_walk_iff (entered : (0 < depth && options.excludes here) = false)
    (readable : here.isTooLong = false) :
    .file path ∈ walk options start (budget + 1) depth here (.directory entries) ↔
      IsFileIn options start here entries path ∨
        ∃ name below, (name, .directory below) ∈ entries ∧ options.nonRecursive = false ∧
          .file path ∈ walk options start budget (depth + 1) (here.join name)
            (.directory below) := by
  rw [walk_succ, if_neg (by simp [entered]), if_neg (by simp [readable])]
  simp only [List.mem_flatMap]
  constructor
  · rintro ⟨⟨name, node⟩, listed, found⟩
    cases node with
    | file content =>
        rw [examineEntry] at found
        by_cases accepted : options.accepts start (here.join name) = true
        · rw [if_pos accepted, List.mem_singleton, Finding.file.injEq] at found
          subst found
          exact .inl ⟨name, content, listed, accepted, rfl⟩
        · rw [if_neg accepted] at found
          contradiction
    | directory below =>
        rw [examineEntry] at found
        by_cases flat : options.nonRecursive = true
        · rw [if_pos flat] at found
          contradiction
        · rw [if_neg flat] at found
          exact .inr ⟨name, below, listed, eq_false_of_ne_true flat, found⟩
    | link => contradiction
    | device => contradiction
  · rintro (⟨name, content, listed, accepted, rfl⟩ | ⟨name, below, listed, searched, found⟩)
    · exact ⟨_, listed, by simp [examineEntry, accepted]⟩
    · exact ⟨_, listed, by simpa [examineEntry, searched] using found⟩

/-- Below the start a directory is searched only if its name is not excluded. -/
theorem not_excluded_of_file_mem_walk {name : Bytes} (isName : IsName name)
    (found : .file path ∈ walk options start (budget + 1) (depth + 1) (here.join name)
      (.directory entries)) : name ∉ options.excludedNames := by
  intro excluded
  have leftOut := (WalkOptions.excludes_join_iff here isName).mpr excluded
  rw [walk_succ, if_pos (by simp [leftOut])] at found
  simp at found

/-- The search of a tree finds the files below it and no other. -/
theorem file_mem_walk_iff_isFileBelow (isTree : (Node.directory entries).IsTree)
    (readable : (Node.directory entries).ReadableAt here)
    (entered : (0 < depth && options.excludes here) = false) :
    .file path ∈ walk options start (budget + 1) depth here (.directory entries) ↔
      IsFileBelow options start budget here entries path := by
  induction budget generalizing depth here entries with
  | zero =>
      rw [file_mem_walk_iff entered readable.here, isFileBelow_zero_iff isTree]
      simp
  | succ budget inductionHypothesis =>
      rw [file_mem_walk_iff entered readable.here, isFileBelow_succ_iff isTree]
      refine or_congr_right (exists_congr fun name => exists_congr fun below => ?_)
      refine and_congr_right fun listed => and_congr_right fun searched => ?_
      have isName := isTree.isName listed
      -- The budget alone says how deep the search goes; `depth` only tells the start apart.
      have deeper : name ∉ options.excludedNames →
          (.file path ∈ walk options start (budget + 1) (depth + 1) (here.join name)
              (.directory below) ↔
            IsFileBelow options start budget (here.join name) below path) := by
        intro notExcluded
        have notLeftOut := mt (WalkOptions.excludes_join_iff here isName).mp notExcluded
        exact inductionHypothesis (isTree.child listed) (readable.child isTree listed)
          (by simp [notLeftOut])
      constructor
      · intro found
        have notExcluded := not_excluded_of_file_mem_walk isName found
        exact ⟨notExcluded, (deeper notExcluded).mp found⟩
      · rintro ⟨notExcluded, fileBelow⟩
        exact (deeper notExcluded).mpr fileBelow

end Walk

/-! ## Discovery -/

namespace Discovery

/-- A file that a search from the given paths has to find. -/
inductive IsSought (options : WalkOptions) (system : FileSystem) (paths : List Path) :
    Path → Prop where
  /-- A file that is given is sought whatever the options are. -/
  | given {path : Path} {content : Bytes} : path ∈ paths →
      system.find path = .ok (.file content) → IsSought options system paths path
  /-- A file below a directory that is given. -/
  | below {root : Path} {entries : List (Bytes × Node)} {dirs : List Bytes} {name content : Bytes} :
      root ∈ paths → system.find root = .ok (.directory entries) →
      (Node.directory entries).below? (dirs ++ [name]) = some (.file content) →
      options.Enters options.maxDepth dirs → options.Wants dirs name →
      IsSought options system paths (root.joinAll (dirs ++ [name]))

variable {options : WalkOptions} {system : FileSystem} {paths : List Path} {path : Path}

theorem file_mem_examine_iff {root : Path} :
    .file path ∈ examine options system.find root ↔
      (∃ content, system.find root = .ok (.file content) ∧ path = root) ∨
        ∃ entries, system.find root = .ok (.directory entries) ∧
          .file path ∈ walk options root (options.maxDepth + 1) 0 root (.directory entries) := by
  rw [examine]
  cases found : system.find root with
  | error error => simp
  | ok node =>
      cases node with
      | file content => simp
      | directory entries => simp
      | link target => simp [file_not_mem_walk]
      | device => simp [file_not_mem_walk]

/-- The search from a directory that is given finds the files below it that are sought. -/
theorem file_mem_walk_iff_sought {root : Path} {entries : List (Bytes × Node)}
    (isTree : system.root.IsTree) (found : system.find root = .ok (.directory entries))
    (readable : (Node.directory entries).ReadableAt root) :
    .file path ∈ walk options root (options.maxDepth + 1) 0 root (.directory entries) ↔
      ∃ dirs name content,
        (Node.directory entries).below? (dirs ++ [name]) = some (.file content) ∧
          options.Enters options.maxDepth dirs ∧ options.Wants dirs name ∧
          path = root.joinAll (dirs ++ [name]) := by
  have subtree := FileSystem.isTree_of_find isTree found
  have notEmpty := FileSystem.bytes_ne_nil_of_find found
  rw [file_mem_walk_iff_isFileBelow subtree readable rfl, IsFileBelow]
  refine exists_congr fun dirs => exists_congr fun name => exists_congr fun content => ?_
  refine and_congr_right fun leads => and_congr_right fun _ => and_congr_left fun pathEq => ?_
  rw [pathEq]
  exact WalkOptions.accepts_joinAll_iff notEmpty (subtree.areNames leads)

theorem file_mem_findings_iff_isSought (isTree : system.root.IsTree)
    (readable : ∀ root ∈ paths, ∀ node, system.find root = .ok node → node.ReadableAt root) :
    .file path ∈ findings options system.find paths ↔ IsSought options system paths path := by
  simp only [findings, List.mem_flatMap, file_mem_examine_iff]
  constructor
  · rintro ⟨root, given, ⟨content, found, rfl⟩ | ⟨entries, found, reached⟩⟩
    · exact .given given found
    · obtain ⟨dirs, name, content, leads, enters, wants, rfl⟩ :=
        (file_mem_walk_iff_sought isTree found (readable root given _ found)).mp reached
      exact .below given found leads enters wants
  · intro sought
    cases sought with
    | given given found => exact ⟨path, given, .inl ⟨_, found, rfl⟩⟩
    | below given found leads enters wants =>
        refine ⟨_, given, .inr ⟨_, found, ?_⟩⟩
        exact (file_mem_walk_iff_sought isTree found (readable _ given _ found)).mpr
          ⟨_, _, _, leads, enters, wants, rfl⟩

theorem mem_filterMap_file?_iff {found : List Finding} :
    path ∈ found.filterMap Finding.file? ↔ .file path ∈ found := by
  rw [List.mem_filterMap]
  constructor
  · rintro ⟨finding, member, isFile⟩
    cases finding with
    | file other =>
        cases isFile
        exact member
    | missing => contradiction
    | tooDeep => contradiction
    | unreadable => contradiction
    | lost => contradiction
    | untyped => contradiction
    | excluded => contradiction
  · intro member
    exact ⟨_, member, rfl⟩

theorem doesExist_iff :
    doesExist system.find path = true ↔ ∃ node, system.find path = .ok node := by
  rw [doesExist]
  cases system.find path <;> simp [Except.isOk, Except.toBool]

/-- In a tree whose directories can all be read, discovery finds the files that are sought
and no other, each in some spelling of its path. -/
theorem discover_finds_sought (options : WalkOptions) (system : FileSystem) (paths : List Path)
    (isTree : system.root.IsTree)
    (readable : ∀ root ∈ paths, ∀ node, system.find root = .ok node → node.ReadableAt root)
    (someExists : ∃ path ∈ paths, ∃ node, system.find path = .ok node) :
    ∃ discovery, discover options system.find paths = some discovery ∧
      ∀ path : Path, (∃ found ∈ discovery.files, found.components = path.components) ↔
        ∃ sought, IsSought options system paths sought ∧
          sought.components = path.components := by
  refine ⟨ofFindings (findings options system.find paths), if_pos ?_, fun path => ?_⟩
  · simp only [List.any_eq_true, doesExist_iff]
    exact someExists
  · simp only [ofFindings, Path.exists_mem_dropRepeats_sort_iff, mem_filterMap_file?_iff,
      file_mem_findings_iff_isSought isTree readable]

/-- A directory with an excluded one in it, and a link to the directory. -/
def linkedSystem : FileSystem :=
  .ofEntries [(.ofText "d/sub/a.rs".toList, .file []), (.ofText "d/sub/b.txt".toList, .file []),
    (.ofText "d/.git/c.rs".toList, .file []), (.ofText "l".toList, .link "d".toUTF8.toList)]

/-- From the link, spelled with a dot and slashes, only what lies in `sub` matches. -/
theorem discover_through_link :
    linkedSystem.root.IsTree ∧
      (∀ root ∈ [Path.ofText "l/.//".toList, Path.ofText "d/sub/b.txt".toList],
        ∀ node, linkedSystem.find root = .ok node → node.ReadableAt root) ∧
      (∃ path ∈ [Path.ofText "l/.//".toList, Path.ofText "d/sub/b.txt".toList],
        ∃ node, linkedSystem.find path = .ok node) ∧
      ∃ discovery,
        discover
            { excludedNames := WalkOptions.defaultExcluded
              filespec := some ⟨[.literal 's', .anySequence, .literal '/', .anySequence]⟩ }
            linkedSystem.find [Path.ofText "l/.//".toList, Path.ofText "d/sub/b.txt".toList] =
          some discovery ∧
        ∀ path : Path, (∃ found ∈ discovery.files, found.components = path.components) ↔
          ∃ sought,
            IsSought
                { excludedNames := WalkOptions.defaultExcluded
                  filespec := some ⟨[.literal 's', .anySequence, .literal '/', .anySequence]⟩ }
                linkedSystem [Path.ofText "l/.//".toList, Path.ofText "d/sub/b.txt".toList]
                sought ∧
              sought.components = path.components := by
  have isTree : linkedSystem.root.IsTree := Node.isTree_of_everyDirectory (by decide +kernel)
  have readable : ∀ root ∈ [Path.ofText "l/.//".toList, Path.ofText "d/sub/b.txt".toList],
      ∀ node, linkedSystem.find root = .ok node → node.ReadableAt root :=
    FileSystem.readable_of_everyDirectory (by decide +kernel)
  have someExists : ∃ path ∈ [Path.ofText "l/.//".toList, Path.ofText "d/sub/b.txt".toList],
      ∃ node, linkedSystem.find path = .ok node :=
    ⟨_, List.mem_cons_self, doesExist_iff.mp (by decide +kernel)⟩
  exact ⟨isTree, readable, someExists, discover_finds_sought _ _ _ isTree readable someExists⟩

end Discovery

end LineTally
