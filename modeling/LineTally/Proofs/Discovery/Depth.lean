import LineTally.Proofs.Discovery.Sought
import LineTally.Proofs.Discovery.Subject

/-!
# One directory too deep

A search that may enter some levels of directories still comes to the directories one level
below them, and makes a finding of each (`tooDeep_mem_walkWith_iff`).
-/

namespace LineTally

variable {options : WalkOptions} {read : DirectoryReader} {start here path : Path}
  {budget depth : Nat} {node : Node} {names : List Bytes}

/-- The names lead to a directory that is one level too deep for a search that may enter
`budget` levels, past directories that it enters. -/
inductive WalkOptions.Oversteps (options : WalkOptions) (read : DirectoryReader) :
    Nat → Path → Node → List Bytes → Prop where
  | atLimit {path : Path} {node : Node} {listed : List EntryReading} {name : Bytes}
      {below : List (Bytes × Node)} :
      options.nonRecursive = false → read path node = .ok listed →
      EntryReading.entry name (.directory below) ∈ listed →
      Oversteps options read 0 path node [name]
  | deeper {budget : Nat} {path : Path} {node : Node} {listed : List EntryReading} {name : Bytes}
      {below : List (Bytes × Node)} {names : List Bytes} :
      options.nonRecursive = false → read path node = .ok listed →
      EntryReading.entry name (.directory below) ∈ listed → name ∉ options.excludedNames →
      Oversteps options read budget (path.join name) (.directory below) names →
      Oversteps options read (budget + 1) path node (name :: names)

namespace WalkOptions

theorem Oversteps.length_eq (oversteps : options.Oversteps read budget here node names) :
    names.length = budget + 1 := by
  induction oversteps with
  | atLimit => rfl
  | deeper _ _ _ _ _ inductionHypothesis => rw [List.length_cons, inductionHypothesis]

theorem Oversteps.exists_directory (proper : read.IsProper)
    (oversteps : options.Oversteps read budget here node names) :
    ∃ entries, node = .directory entries := by
  cases oversteps with
  | atLimit _ reads => exact proper.isDirectory reads
  | deeper _ reads => exact proper.isDirectory reads

theorem Oversteps.areNames (proper : read.IsProper) (isTree : node.IsTree)
    (oversteps : options.Oversteps read budget here node names) :
    ∀ name ∈ names, IsName name := by
  induction oversteps with
  | atLimit _ reads listedMem => simpa using proper.isName isTree reads _ listedMem _ rfl
  | deeper _ reads listedMem _ _ inductionHypothesis =>
      rw [List.forall_mem_cons]
      exact ⟨proper.isName isTree reads _ listedMem _ rfl,
        inductionHypothesis (proper.isTree isTree reads _ _ listedMem)⟩

end WalkOptions

/-- Only what comes of a directory can be too deep. -/
theorem tooDeep_mem_examineEntry_iff {search : Path → Node → List Finding}
    {reading : EntryReading} :
    .tooDeep path ∈ examineEntry options start search here reading ↔
      options.nonRecursive = false ∧ ∃ name below, reading = .entry name (.directory below) ∧
        .tooDeep path ∈ search (here.join name) (.directory below) := by
  cases reading with
  | lost => simp [examineEntry]
  | untyped => simp [examineEntry]
  | entry name child =>
      cases child with
      | directory below =>
          cases flat : options.nonRecursive <;> simp [examineEntry, flat]
      | file content =>
          rw [examineEntry]
          split <;> simp
      | link => simp [examineEntry]
      | device => simp [examineEntry]

/-- One level of the search. -/
theorem tooDeep_mem_walkWith_succ_iff (entered : (0 < depth && options.excludes here) = false) :
    .tooDeep path ∈ walkWith read options start (budget + 1) depth here node ↔
      options.nonRecursive = false ∧ ∃ listed, read here node = .ok listed ∧
        ∃ name below, EntryReading.entry name (.directory below) ∈ listed ∧
          .tooDeep path ∈ walkWith read options start budget (depth + 1) (here.join name)
            (.directory below) := by
  rw [walkWith, if_neg (by simp [entered])]
  cases read here node with
  | error error => simp
  | ok listed =>
      simp only [List.mem_flatMap, tooDeep_mem_examineEntry_iff, Except.ok.injEq]
      constructor
      · rintro ⟨_, listedMem, searched, name, below, rfl, found⟩
        exact ⟨searched, listed, rfl, name, below, listedMem, found⟩
      · rintro ⟨searched, _, rfl, name, below, listedMem, found⟩
        exact ⟨_, listedMem, searched, name, below, rfl, found⟩

/-- Below the start nothing comes of a directory that is excluded, unless it is too deep. -/
theorem not_excludes_of_tooDeep_mem_walkWith
    (found : .tooDeep path ∈ walkWith read options start (budget + 1) (depth + 1) here node) :
    options.excludes here = false := by
  rw [walkWith] at found
  rw [← Bool.not_eq_true]
  intro leftOut
  rw [if_pos (by simp [leftOut])] at found
  simp at found

/-- What a search finds too deep is one level below those that it may enter. -/
theorem tooDeep_mem_walkWith_iff (proper : read.IsProper) (isTree : node.IsTree)
    (entered : (0 < depth && options.excludes here) = false) :
    .tooDeep path ∈ walkWith read options start (budget + 1) depth here node ↔
      ∃ names, options.Oversteps read budget here node names ∧ path = here.joinAll names := by
  constructor
  · intro found
    induction budget generalizing depth here node with
    | zero =>
        obtain ⟨searched, listed, reads, name, below, listedMem, found⟩ :=
          (tooDeep_mem_walkWith_succ_iff entered).mp found
        rw [walkWith_zero, List.mem_singleton, Finding.tooDeep.injEq] at found
        exact ⟨[name], .atLimit searched reads listedMem, found⟩
    | succ budget inductionHypothesis =>
        obtain ⟨searched, listed, reads, name, below, listedMem, found⟩ :=
          (tooDeep_mem_walkWith_succ_iff entered).mp found
        have isName := proper.isName isTree reads _ listedMem name rfl
        have notExcluded := not_excludes_of_tooDeep_mem_walkWith found
        have notNamed : name ∉ options.excludedNames := by
          rw [← WalkOptions.excludes_join_iff here isName, notExcluded]
          exact Bool.false_ne_true
        obtain ⟨names, oversteps, pathEq⟩ := inductionHypothesis
          (proper.isTree isTree reads _ _ listedMem) (by simp [notExcluded]) found
        exact ⟨name :: names, .deeper searched reads listedMem notNamed oversteps, pathEq⟩
  · rintro ⟨names, oversteps, rfl⟩
    induction oversteps generalizing depth with
    | atLimit searched reads listedMem =>
        rw [tooDeep_mem_walkWith_succ_iff entered]
        exact ⟨searched, _, reads, _, _, listedMem, by simp⟩
    | @deeper _ here _ _ name _ _ searched reads listedMem notNamed _ inductionHypothesis =>
        rw [tooDeep_mem_walkWith_succ_iff entered]
        refine ⟨searched, _, reads, _, _, listedMem, ?_⟩
        have isName : IsName name := proper.isName isTree reads _ listedMem _ rfl
        have notExcluded := mt (WalkOptions.excludes_join_iff here isName).mp notNamed
        exact inductionHypothesis (proper.isTree isTree reads _ _ listedMem) (by simp [notExcluded])

/-- From a given path those directories are found too deep that are one level too deep. -/
theorem tooDeep_mem_examine_iff {find : Path → Except FileError Node} (proper : read.IsProper)
    (isTree : ∀ node, find start = .ok node → node.IsTree) :
    .tooDeep path ∈ examine options find start read ↔
      ∃ node names, find start = .ok node ∧
        options.Oversteps read options.maxDepth start node names ∧ path = start.joinAll names := by
  rcases examine_cases options find start read with
    ⟨error, leads, found⟩ | ⟨content, leads, found⟩ | ⟨node, leads, _, found⟩
  · simp [found, leads]
  · rw [found]
    constructor
    · simp
    · rintro ⟨node, names, leadsTo, oversteps, _⟩
      obtain ⟨entries, rfl⟩ := oversteps.exists_directory proper
      cases leads.symm.trans leadsTo
  · rw [found, tooDeep_mem_walkWith_iff proper (isTree node leads) (by simp), leads]
    simp

end LineTally
