import LineTally.Proofs.Counting.Conservation
import LineTally.Proofs.Discovery.Overlap
import LineTally.Proofs.Discovery.Unlisted
import LineTally.Proofs.Discovery.Warnings

/-!
# Failures that do not end a run

Where a given path is missing, or something cannot be searched or read, or a file ends in an
open region, the run goes on.  Each of these failures is logged by one warning and counted
once, and what else there is to find is found (`soft_failures_are_counted_once`).
-/

namespace LineTally

/-! ## Files that are read -/

namespace FileOutcome

/-- Whether the file could not be read. -/
def isUnreadable : FileOutcome → Bool
  | .ignored _ (.unreadable _) => true
  | _ => false

theorem length_warnings_log (outcome : FileOutcome) :
    (Log.warnings outcome.log).length =
      [outcome].countP isUnreadable + (reports [outcome]).countP (·.anomaly.isSome) := by
  cases outcome with
  | ignored path reason => cases reason <;> rfl
  | counted report =>
      obtain ⟨path, language, counts, anomaly⟩ := report
      cases anomaly <;> rfl

/-- There is one warning for each file that could not be read and one for each that ends in an
open region. -/
theorem length_warnings_flatMap_log (outcomes : List FileOutcome) :
    (Log.warnings (outcomes.flatMap log)).length =
      outcomes.countP isUnreadable + (reports outcomes).countP (·.anomaly.isSome) := by
  induction outcomes with
  | nil => rfl
  | cons outcome rest inductionHypothesis =>
      have reportsOfBoth : reports (outcome :: rest) = reports [outcome] ++ reports rest :=
        @List.filterMap_append _ _ [outcome] rest report?
      have unreadableOfBoth : (outcome :: rest).countP isUnreadable =
          [outcome].countP isUnreadable + rest.countP isUnreadable :=
        @List.countP_append _ _ [outcome] rest
      have warningsOfBoth : (Log.warnings ((outcome :: rest).flatMap log)).length =
          (Log.warnings outcome.log).length + (Log.warnings (rest.flatMap log)).length := by
        rw [List.flatMap_cons, Log.warnings, List.filter_append, List.length_append]
        rfl
      rw [warningsOfBoth, length_warnings_log, inductionHypothesis, unreadableOfBoth,
        reportsOfBoth, List.countP_append, Nat.add_add_add_comm]

end FileOutcome

/-! ## Places that are searched -/

namespace Discovery

variable {options : WalkOptions} {find : Path → Except FileError Node} {paths : List Path}
  {read : DirectoryReader} {start : Path} {node : Node}

/-- Discovery where the directories below each given path are read in their own way. -/
def discoverEach (options : WalkOptions) (find : Path → Except FileError Node)
    (paths : List Path) (reader : Path → DirectoryReader) : Option Discovery :=
  if paths.any (doesExist find) then
    some (ofFindings (paths.flatMap fun path => examine options find path (reader path)))
  else none

/-- Where one given path yields the same files and one error less, all paths yield the same
files and one error less each time that the path is given. -/
theorem ofFindings_flatMap {found kept : Path → List Finding}
    (others : ∀ path, path ≠ start → found path = kept path)
    (files : (found start).filterMap Finding.file? = (kept start).filterMap Finding.file?)
    (errors : (found start).countP Finding.isError = (kept start).countP Finding.isError + 1) :
    ofFindings (paths.flatMap found) =
      (ofFindings (paths.flatMap kept)).addErrors (paths.count start) := by
  have allFiles : (paths.flatMap found).filterMap Finding.file? =
      (paths.flatMap kept).filterMap Finding.file? := by
    rw [List.filterMap_flatMap, List.filterMap_flatMap]
    apply List.flatMap_congr
    intro path _
    by_cases same : path = start
    · rw [same, files]
    · rw [others path same]
  have allErrors : (paths.flatMap found).countP Finding.isError =
      (paths.flatMap kept).countP Finding.isError + paths.count start := by
    clear allFiles
    induction paths with
    | nil => rfl
    | cons path rest inductionHypothesis =>
        rw [List.flatMap_cons, List.flatMap_cons, List.countP_append, List.countP_append,
          inductionHypothesis]
        by_cases same : path = start
        · subst same
          rw [errors, List.count_cons_self]
          omega
        · rw [others path same, List.count_cons_of_ne same, Nat.add_assoc]
  rw [ofFindings, ofFindings, addErrors, allFiles, allErrors]

theorem discover_of_mem (given : start ∈ paths) (leads : find start = .ok node) :
    discover options find paths read = some (ofFindings (findings options find paths read)) := by
  rw [discover, if_pos (any_doesExist given leads)]

/-- Of what is neither a file nor a directory one finding is made. -/
theorem examine_of_neither (proper : read.IsProper) (leads : find start = .ok node)
    (notFile : ∀ content, node ≠ .file content)
    (notDirectory : ∀ entries, node ≠ .directory entries) :
    ∃ error, examine options find start read = [.unreadable start error] := by
  rcases examine_cases options find start read with
    ⟨error, fails, _⟩ | ⟨content, isFile, _⟩ | ⟨other, leadsTo, _, found⟩
  · rw [leads] at fails
    contradiction
  · rw [leads, Except.ok.injEq] at isFile
    exact absurd isFile (notFile content)
  · rw [leads, Except.ok.injEq] at leadsTo
    subst leadsTo
    cases reads : read start node with
    | error error =>
        refine ⟨error, ?_⟩
        rw [found, walkWith, if_neg (by simp), reads]
    | ok listed =>
        obtain ⟨entries, isDirectory⟩ := proper.isDirectory reads
        exact absurd isDirectory (notDirectory entries)

/-- What is neither a file nor a directory adds an error, and all else stays. -/
theorem discover_of_neither (proper : read.IsProper) (given : start ∈ paths)
    (leads : find start = .ok node) (notFile : ∀ content, node ≠ .file content)
    (notDirectory : ∀ entries, node ≠ .directory entries) :
    discover options find paths read =
      some (((discover options find (paths.filter (· ≠ start)) read).getD ⟨[], 0⟩).addErrors
        (paths.count start)) := by
  obtain ⟨error, stopped⟩ :=
    @examine_of_neither options find read start node proper leads notFile notDirectory
  rw [discover_of_mem given leads, getD_discover, findings, findings, flatMap_filter]
  congr 1
  apply ofFindings_flatMap
  · intro path other
    simp [other]
  · simp [stopped, Finding.file?]
  · simp [stopped, Finding.isError]

/-- A directory that is one level too deep adds an error, and all else is as if it were not
listed. -/
theorem discover_of_oversteps (proper : read.IsProper) (given : start ∈ paths)
    (leads : find start = .ok node) (isTree : node.IsTree) {names : List Bytes}
    (oversteps : options.Oversteps read options.maxDepth start node names) :
    discover options find paths read =
      (discoverEach options find paths fun path =>
          if path = start then read.unlisting (start.joinAll names) else read).map
        (·.addErrors (paths.count start)) := by
  obtain ⟨once, unlisted⟩ := @examine_unlisting options read start node names find proper leads
    isTree oversteps
  rw [discover_of_mem given leads, discoverEach, if_pos (any_doesExist given leads),
    Option.map_some, findings]
  congr 1
  apply ofFindings_flatMap
  · intro path other
    rw [if_neg other]
  · rw [if_pos rfl, unlisted, List.filterMap_filter]
    congr 1
    funext finding
    cases finding <;> simp [Finding.file?]
  · rw [if_pos rfl, unlisted, ← once]
    exact Finding.countP_eq_countP_filter_add_count rfl

end Discovery

open Discovery in
/-- The log of a search has one warning for each given path that does not exist and one for
each error, and the log of a count has one for each file that cannot be read and one for each
file that is flagged, which is the number that the tally keeps of them.  A given path that is
neither a file nor a directory, and a directory one level too deep, add one error each time that
a search comes to them; all else is found as if the path were not given or the directory were
not listed. -/
theorem soft_failures_are_counted_once (options : WalkOptions)
    (find : Path → Except FileError Node) (paths : List Path) (read : DirectoryReader)
    (proper : read.IsProper) :
    (Log.warnings (log options find paths read)).length =
        paths.countP (!doesExist find ·) +
          (discover options find paths read).elim 0 (·.errors) ∧
      (∀ (content : Path → Except FileError Bytes) (files : List Path),
        (Log.warnings ((countOutcomes content files).flatMap FileOutcome.log)).length =
          (countOutcomes content files).countP FileOutcome.isUnreadable +
            (countAll content files).reports.countP (·.anomaly.isSome) ∧
        (countAll content files).tally.flagged =
          .ofNat ((countAll content files).reports.countP (·.anomaly.isSome)) ∧
        (files.length < 2 ^ 64 →
          (Log.warnings ((countOutcomes content files).flatMap FileOutcome.log)).length =
            (countOutcomes content files).countP FileOutcome.isUnreadable +
              (countAll content files).tally.flagged.toNat)) ∧
      (∀ start ∈ paths, ∀ node, find start = .ok node → (∀ content, node ≠ .file content) →
        (∀ entries, node ≠ .directory entries) →
          discover options find paths read =
            some (((discover options find (paths.filter (· ≠ start)) read).getD ⟨[], 0⟩).addErrors
              (paths.count start))) ∧
      ∀ start ∈ paths, ∀ node names, find start = .ok node → node.IsTree →
        options.Oversteps read options.maxDepth start node names →
          discover options find paths read =
            (discoverEach options find paths fun path =>
                if path = start then read.unlisting (start.joinAll names) else read).map
              (·.addErrors (paths.count start)) := by
  refine ⟨length_warnings_log, ?_, ?_, ?_⟩
  · intro content files
    have warnings := FileOutcome.length_warnings_flatMap_log (countOutcomes content files)
    have flagged := (holds_tally_countAll content files).flagged
    refine ⟨warnings, flagged, fun few => ?_⟩
    have fits : (countAll content files).reports.countP (·.anomaly.isSome) < 2 ^ 64 :=
      (List.countP_le_length.trans (length_reports_countAll_le content files)).trans_lt few
    rw [warnings, flagged]
    exact congrArg _ (UInt64.toNat_ofNat_of_lt' fits).symm
  · intro start given node leads notFile notDirectory
    exact discover_of_neither proper given leads notFile notDirectory
  · intro start given node names leads isTree oversteps
    exact discover_of_oversteps proper given leads isTree oversteps

/-- A file, and another one in a directory beside it. -/
def fileBesideDirectory : FileSystem :=
  .ofEntries [(.ofText "d/a.rs".toList, .file []), (.ofText "d/e/b.rs".toList, .file [])]

/-- A directory that is given twice, a path that does not exist, and a device. -/
def troubledPaths : List Path :=
  [.ofText "d".toList, .ofText "nowhere".toList, .ofText "/dev/null".toList, .ofText "d".toList]

/-- No directory below the given ones may be entered. -/
def shallow : WalkOptions :=
  { excludedNames := [], maxDepth := 0 }

open Discovery in
theorem soft_failures_on_troubled_paths :
    DirectoryReader.ofTree.IsProper ∧
      discover shallow fileBesideDirectory.find troubledPaths =
        some ⟨[.ofText "d/a.rs".toList], 3⟩ ∧
      (Log.warnings (log shallow fileBesideDirectory.find troubledPaths)).length = 1 + 3 ∧
      (Log.warnings ((countOutcomes (fun _ => .error .isADirectory) troubledPaths).flatMap
        FileOutcome.log)).length = 4 + 0 ∧
      fileBesideDirectory.find (.ofText "/dev/null".toList) = .ok .device ∧
      discover shallow fileBesideDirectory.find troubledPaths =
        some (((discover shallow fileBesideDirectory.find
            (troubledPaths.filter (· ≠ .ofText "/dev/null".toList))).getD ⟨[], 0⟩).addErrors
          (troubledPaths.count (.ofText "/dev/null".toList))) ∧
      ∃ node names, fileBesideDirectory.find (.ofText "d".toList) = .ok node ∧ node.IsTree ∧
        shallow.Oversteps .ofTree 0 (.ofText "d".toList) node names ∧
          discover shallow fileBesideDirectory.find troubledPaths =
            (discoverEach shallow fileBesideDirectory.find troubledPaths fun path =>
                if path = .ofText "d".toList then
                  DirectoryReader.unlisting .ofTree ((Path.ofText "d".toList).joinAll names)
                else .ofTree).map
              (·.addErrors (troubledPaths.count (.ofText "d".toList))) := by
  have isTree : fileBesideDirectory.root.IsTree :=
    Node.isTree_of_everyDirectory (by decide +kernel)
  have isDevice : (match fileBesideDirectory.find (.ofText "/dev/null".toList) with
      | .ok .device => true
      | _ => false) = true := by
    decide +kernel
  have device : fileBesideDirectory.find (.ofText "/dev/null".toList) = .ok .device := by
    generalize fileBesideDirectory.find (.ofText "/dev/null".toList) = found at isDevice ⊢
    split at isDevice
    · rfl
    · contradiction
  have tooDeep : .tooDeep (.ofText "d/e".toList) ∈
      examine shallow fileBesideDirectory.find (.ofText "d".toList) := by
    decide +kernel
  obtain ⟨node, names, leads, oversteps, _⟩ :=
    (tooDeep_mem_examine_iff DirectoryReader.isProper_ofTree
      fun _ leads => FileSystem.isTree_of_find isTree leads).mp tooDeep
  have discovered : discover shallow fileBesideDirectory.find troubledPaths =
      some ⟨[.ofText "d/a.rs".toList], 3⟩ :=
    (discover_of_sorted (by decide +kernel) rfl (by decide +kernel)).trans (by decide +kernel)
  obtain ⟨warnings, counted, neither, atLimit⟩ := soft_failures_are_counted_once shallow
    fileBesideDirectory.find troubledPaths .ofTree DirectoryReader.isProper_ofTree
  rw [discovered, Option.elim_some] at warnings
  have missing : troubledPaths.countP (!doesExist fileBesideDirectory.find ·) = 1 := by
    decide +kernel
  rw [missing] at warnings
  have unreadable := (counted (fun _ => .error .isADirectory) troubledPaths).1
  have subtree := FileSystem.isTree_of_find isTree leads
  exact ⟨DirectoryReader.isProper_ofTree, discovered, warnings, unreadable, device,
    neither _ (by decide +kernel) _ device (by simp) (by simp), node, names, leads, subtree,
    oversteps, atLimit _ (by decide +kernel) node names leads subtree oversteps⟩

end LineTally
