import LineTally.Discovery.Basic
import LineTally.Proofs.FileSystem.Tree
import LineTally.Proofs.Path.Repeats

/-!
# What findings are about

A finding is about a file or a directory below the place where the search is, and its path
is made of the names that lead there (`exists_names_of_mem_walkWith`).  A search comes to
no place twice, so two findings of one search are about different paths
(`pairwise_apart_walkWith`), whatever the order in which directories are listed and
whatever cannot be read.
-/

namespace LineTally

/-! ## Readers -/

/-- The name of an entry, if it could be read. -/
def EntryReading.name? : EntryReading → Option Bytes
  | .entry name _ => some name
  | .untyped name _ => some name
  | .lost _ => none

/-- Only directories can be read.  In a tree of files the reader lists every name of a
directory at most once, only names that can stand in a path, and trees under them. -/
structure DirectoryReader.IsProper (read : DirectoryReader) : Prop where
  isDirectory : ∀ {path : Path} {node : Node} {listed : List EntryReading},
    read path node = .ok listed → ∃ entries, node = .directory entries
  nodup : ∀ {path : Path} {node : Node} {listed : List EntryReading}, node.IsTree →
    read path node = .ok listed → (listed.filterMap EntryReading.name?).Nodup
  isName : ∀ {path : Path} {node : Node} {listed : List EntryReading}, node.IsTree →
    read path node = .ok listed → ∀ reading ∈ listed, ∀ name, reading.name? = some name →
      IsName name
  isTree : ∀ {path : Path} {node : Node} {listed : List EntryReading}, node.IsTree →
    read path node = .ok listed → ∀ name child, .entry name child ∈ listed → child.IsTree

namespace DirectoryReader

theorem ofTree_eq_ok_iff {path : Path} {node : Node} {listed : List EntryReading} :
    ofTree path node = .ok listed ↔ path.isTooLong = false ∧
      ∃ entries, node = .directory entries ∧
        listed = entries.map fun entry => .entry entry.1 entry.2 := by
  cases tooLong : path.isTooLong with
  | true => simp [ofTree, tooLong]
  | false => cases node <;> simp [ofTree, tooLong, eq_comm]

/-- The order of the tree is a proper one. -/
theorem isProper_ofTree : ofTree.IsProper := by
  constructor
  case isDirectory =>
    intro path node listed reads
    obtain ⟨_, entries, isDirectory, _⟩ := ofTree_eq_ok_iff.mp reads
    exact ⟨entries, isDirectory⟩
  case nodup =>
    intro path node listed isTree reads
    obtain ⟨_, entries, rfl, rfl⟩ := ofTree_eq_ok_iff.mp reads
    rw [List.filterMap_map]
    have names : entries.filterMap (EntryReading.name? ∘ fun entry => .entry entry.1 entry.2) =
        entries.map Prod.fst := congrFun List.filterMap_eq_map entries
    rw [names]
    exact isTree.nodup
  case isName =>
    intro path node listed isTree reads reading member name named
    obtain ⟨_, entries, rfl, rfl⟩ := ofTree_eq_ok_iff.mp reads
    obtain ⟨entry, entryMem, rfl⟩ := List.mem_map.mp member
    cases named
    exact isTree.isName entryMem
  case isTree =>
    intro path node listed isTree reads name child member
    obtain ⟨_, entries, rfl, rfl⟩ := ofTree_eq_ok_iff.mp reads
    obtain ⟨entry, entryMem, same⟩ := List.mem_map.mp member
    cases same
    exact isTree.child entryMem

end DirectoryReader

/-! ## Subjects -/

namespace Finding

/-- The path that a finding is about.  Of an entry that cannot be read it is not known. -/
def subject? : Finding → Option Path
  | .missing path => some path
  | .file path => some path
  | .tooDeep path => some path
  | .unreadable path _ => some path
  | .lost .. => none
  | .untyped path _ => some path
  | .excluded path => some path

/-- Two findings are not about equal paths. -/
def Apart (first second : Finding) : Prop :=
  ∀ path, first.subject? = some path → ∀ other, second.subject? = some other →
    path.same other = false

theorem subject?_of_file? {finding : Finding} {path : Path} (isFile : finding.file? = some path) :
    finding.subject? = some path := by
  cases finding with
  | file other => exact isFile
  | missing => contradiction
  | tooDeep => contradiction
  | unreadable => contradiction
  | lost => contradiction
  | untyped => contradiction
  | excluded => contradiction

end Finding

section Walk

variable {read : DirectoryReader} {options : WalkOptions} {start here path : Path}
  {budget depth : Nat} {node : Node} {finding : Finding}

/-- What a search that is not at its end yields. -/
theorem walkWith_succ_cases (read : DirectoryReader) (options : WalkOptions) (start : Path)
    (budget depth : Nat) (here : Path) (node : Node) :
    walkWith read options start (budget + 1) depth here node = [.excluded here] ∨
      (∃ error, walkWith read options start (budget + 1) depth here node =
        [.unreadable here error]) ∨
      ∃ listed, read here node = .ok listed ∧
        walkWith read options start (budget + 1) depth here node =
          listed.flatMap
            (examineEntry options start (walkWith read options start budget (depth + 1)) here) := by
  rw [walkWith]
  by_cases leftOut : (0 < depth && options.excludes here) = true
  · exact .inl (if_pos leftOut)
  · rw [if_neg leftOut]
    cases reads : read here node with
    | error error => exact .inr (.inl ⟨error, rfl⟩)
    | ok listed => exact .inr (.inr ⟨listed, rfl, rfl⟩)

/-- What a given path yields. -/
theorem examine_cases (options : WalkOptions) (find : Path → Except FileError Node)
    (start : Path) (read : DirectoryReader) :
    (∃ error, find start = .error error ∧ examine options find start read = [.missing start]) ∨
      (∃ content, find start = .ok (.file content) ∧
        examine options find start read = [.file start]) ∨
      ∃ node, find start = .ok node ∧ (∀ content, node ≠ .file content) ∧
        examine options find start read =
          walkWith read options start (options.maxDepth + 1) 0 start node := by
  rw [examine]
  cases leads : find start with
  | error error => exact .inl ⟨error, rfl, rfl⟩
  | ok node =>
      cases node with
      | file content => exact .inr (.inl ⟨content, rfl, rfl⟩)
      | directory entries => exact .inr (.inr ⟨_, rfl, by simp, rfl⟩)
      | link target => exact .inr (.inr ⟨_, rfl, by simp, rfl⟩)
      | device => exact .inr (.inr ⟨_, rfl, by simp, rfl⟩)

/-- What comes of an entry is about its path or found below it. -/
theorem mem_examineEntry {search : Path → Node → List Finding} {reading : EntryReading}
    (member : finding ∈ examineEntry options start search here reading)
    (about : finding.subject? = some path) :
    ∃ name, reading.name? = some name ∧
      (path = here.join name ∨
        ∃ child, reading = .entry name child ∧ finding ∈ search (here.join name) child) := by
  cases reading with
  | lost error =>
      rw [examineEntry, List.mem_singleton] at member
      subst member
      contradiction
  | untyped name error =>
      rw [examineEntry, List.mem_singleton] at member
      subst member
      cases about
      exact ⟨name, rfl, .inl rfl⟩
  | entry name child =>
      refine ⟨name, rfl, ?_⟩
      cases child with
      | directory entries =>
          rw [examineEntry] at member
          split at member
          · contradiction
          · exact .inr ⟨_, rfl, member⟩
      | file content =>
          rw [examineEntry] at member
          split at member
          · rw [List.mem_singleton] at member
            subst member
            cases about
            exact .inl rfl
          · contradiction
      | link => contradiction
      | device => contradiction

/-- The path of a finding is made of names below the place where the search is. -/
theorem exists_names_of_mem_walkWith (proper : read.IsProper) (isTree : node.IsTree)
    (member : finding ∈ walkWith read options start budget depth here node)
    (about : finding.subject? = some path) :
    ∃ names : List Bytes, (∀ name ∈ names, IsName name) ∧ path = here.joinAll names := by
  induction budget generalizing depth here node with
  | zero =>
      rw [walkWith_zero, List.mem_singleton] at member
      subst member
      cases about
      exact ⟨[], by simp, rfl⟩
  | succ budget inductionHypothesis =>
      rcases walkWith_succ_cases read options start budget depth here node with
        isExcluded | ⟨error, isUnreadable⟩ | ⟨listed, reads, entered⟩
      · rw [isExcluded, List.mem_singleton] at member
        subst member
        cases about
        exact ⟨[], by simp, rfl⟩
      · rw [isUnreadable, List.mem_singleton] at member
        subst member
        cases about
        exact ⟨[], by simp, rfl⟩
      · rw [entered, List.mem_flatMap] at member
        obtain ⟨reading, listedMem, member⟩ := member
        obtain ⟨name, named, direct | ⟨child, rfl, below⟩⟩ := mem_examineEntry member about
        · have isName := proper.isName isTree reads reading listedMem name named
          exact ⟨[name], by simpa using isName, direct⟩
        · have isName := proper.isName isTree reads _ listedMem name named
          have childIsTree := proper.isTree isTree reads name child listedMem
          obtain ⟨names, areNames, pathEq⟩ := inductionHypothesis childIsTree below
          exact ⟨name :: names, List.forall_mem_cons.mpr ⟨isName, areNames⟩, pathEq⟩

/-- What comes of an entry begins with the name of the entry. -/
theorem exists_names_of_mem_examineEntry (proper : read.IsProper) (isTree : node.IsTree)
    {listed : List EntryReading} (reads : read here node = .ok listed) {reading : EntryReading}
    (listedMem : reading ∈ listed)
    (member : finding ∈ examineEntry options start (walkWith read options start budget depth) here
      reading)
    (about : finding.subject? = some path) :
    ∃ name, reading.name? = some name ∧ ∃ names : List Bytes,
      (∀ n ∈ name :: names, IsName n) ∧ path = here.joinAll (name :: names) := by
  obtain ⟨name, named, direct | ⟨child, rfl, below⟩⟩ := mem_examineEntry member about
  · have isName := proper.isName isTree reads reading listedMem name named
    exact ⟨name, named, [], by simpa using isName, direct⟩
  · have isName := proper.isName isTree reads _ listedMem name named
    have childIsTree := proper.isTree isTree reads name child listedMem
    obtain ⟨names, areNames, pathEq⟩ := exists_names_of_mem_walkWith proper childIsTree below about
    exact ⟨name, named, names, List.forall_mem_cons.mpr ⟨isName, areNames⟩, pathEq⟩

theorem pairwise_apart_examineEntry {search : Path → Node → List Finding}
    {reading : EntryReading}
    (below : ∀ name child, reading = .entry name child →
      (search (here.join name) child).Pairwise Finding.Apart) :
    (examineEntry options start search here reading).Pairwise Finding.Apart := by
  cases reading with
  | lost => exact List.pairwise_singleton _ _
  | untyped => exact List.pairwise_singleton _ _
  | entry name child =>
      cases child with
      | directory entries =>
          rw [examineEntry]
          split
          · exact List.Pairwise.nil
          · exact below name _ rfl
      | file content =>
          rw [examineEntry]
          split
          · exact List.pairwise_singleton _ _
          · exact List.Pairwise.nil
      | link => exact List.Pairwise.nil
      | device => exact List.Pairwise.nil

/-- No two findings of a search are about the same path. -/
theorem pairwise_apart_walkWith (proper : read.IsProper) (isTree : node.IsTree) :
    (walkWith read options start budget depth here node).Pairwise Finding.Apart := by
  induction budget generalizing depth here node with
  | zero => exact List.pairwise_singleton _ _
  | succ budget inductionHypothesis =>
      rcases walkWith_succ_cases read options start budget depth here node with
        isExcluded | ⟨error, isUnreadable⟩ | ⟨listed, reads, entered⟩
      · rw [isExcluded]
        exact List.pairwise_singleton _ _
      · rw [isUnreadable]
        exact List.pairwise_singleton _ _
      · rw [entered, List.pairwise_flatMap]
        constructor
        · intro reading listedMem
          apply pairwise_apart_examineEntry
          rintro name child rfl
          exact inductionHypothesis (proper.isTree isTree reads name child listedMem)
        · -- Below different entries the paths part at the names of the entries.
          have namesApart := List.pairwise_filterMap.mp (proper.nodup isTree reads)
          apply namesApart.imp_of_mem
          intro first second firstMem secondMem different finding member other otherMember path
            about otherPath otherAbout
          obtain ⟨name, named, names, areNames, rfl⟩ :=
            exists_names_of_mem_examineEntry proper isTree reads firstMem member about
          obtain ⟨otherName, otherNamed, otherNames, areOtherNames, rfl⟩ :=
            exists_names_of_mem_examineEntry proper isTree reads secondMem otherMember otherAbout
          rw [← Bool.not_eq_true, Path.same_iff, Path.components_joinAll here areNames,
            Path.components_joinAll here areOtherNames]
          intro sameComponents
          have sameNames := List.append_cancel_left sameComponents
          rw [List.map_cons, List.map_cons, List.cons.injEq, Component.name.injEq] at sameNames
          exact different name named otherName otherNamed sameNames.1

/-- The files that one search finds have different paths. -/
theorem pairwise_files_walkWith (proper : read.IsProper) (isTree : node.IsTree) :
    ((walkWith read options start budget depth here node).filterMap Finding.file?).Pairwise
      fun first second => first.same second = false := by
  rw [List.pairwise_filterMap]
  apply (pairwise_apart_walkWith proper isTree).imp
  intro first second apart path isFile other otherIsFile
  exact apart path (Finding.subject?_of_file? isFile) other (Finding.subject?_of_file? otherIsFile)

end Walk

end LineTally
