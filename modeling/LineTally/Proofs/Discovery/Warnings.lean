import LineTally.Proofs.Discovery.Subject
import Mathlib.Data.List.Basic

/-!
# The warnings of a search

A finding makes a warning just if a given path is missing or if something could not be
searched (`warnings_log`).  So there is one warning for each given path that does not exist
and one for each error (`length_warnings_log`).
-/

namespace LineTally

/-- The records that are warnings. -/
def Log.warnings (log : Log) : Log :=
  log.filter (·.level = .warn)

namespace Finding

/-- Whether a given path does not exist. -/
def isMissing : Finding → Bool
  | .missing _ => true
  | _ => false

/-- Whether the log warns of the finding. -/
def warns (finding : Finding) : Bool :=
  finding.isMissing || finding.isError

variable {options : WalkOptions} {finding : Finding}

theorem level_eq_warn_iff {record : Log.Record} (recorded : finding.record? options = some record) :
    record.level = .warn ↔ finding.warns = true := by
  cases finding <;> cases recorded <;> simp [Finding.warns, isMissing, isError]

theorem isSome_record?_of_warns (warned : finding.warns = true) :
    (finding.record? options).isSome = true := by
  cases finding with
  | file => contradiction
  | missing => rfl
  | tooDeep => rfl
  | unreadable => rfl
  | lost => rfl
  | untyped => rfl
  | excluded => rfl

end Finding

namespace Discovery

variable {options : WalkOptions} {find : Path → Except FileError Node} {paths : List Path}
  {read : DirectoryReader} {start path : Path} {node : Node}

/-- The same files, and more errors. -/
def addErrors (found : Discovery) (more : Nat) : Discovery :=
  { found with errors := found.errors + more }

theorem warnings_filterMap_record? (found : List Finding) :
    Log.warnings (found.filterMap (Finding.record? options)) =
      (found.filter Finding.warns).filterMap (Finding.record? options) := by
  rw [Log.warnings, List.filter_filterMap, List.filterMap_filter]
  congr 1
  funext finding
  cases recorded : finding.record? options with
  | none => simp
  | some record =>
      by_cases warned : finding.warns = true
      · simp [warned, (Finding.level_eq_warn_iff recorded).mpr warned]
      · simp [warned, mt (Finding.level_eq_warn_iff recorded).mp warned]

/-- The log warns of the findings that call for it, and of nothing else. -/
theorem warnings_log (find : Path → Except FileError Node) (paths : List Path)
    (read : DirectoryReader) :
    Log.warnings (log options find paths read) =
      ((findings options find paths read).filter Finding.warns).filterMap
        (Finding.record? options) := by
  rw [← warnings_filterMap_record?, Log.warnings, Log.warnings, log, List.filter_append]
  cases discover options find paths read <;> simp

/-! ## How many warnings there are -/

/-- A search goes on only with what exists. -/
theorem isMissing_of_mem_examineEntry {search : Path → Node → List Finding} {directory : Path}
    {reading : EntryReading}
    (below : ∀ path node, ∀ finding ∈ search path node, finding.isMissing = false) :
    ∀ finding ∈ examineEntry options start search directory reading,
      finding.isMissing = false := by
  cases reading with
  | lost => simp [examineEntry, Finding.isMissing]
  | untyped => simp [examineEntry, Finding.isMissing]
  | entry name child =>
      cases child with
      | directory entries =>
          rw [examineEntry]
          split
          · simp
          · exact below _ _
      | file content =>
          rw [examineEntry]
          split <;> simp [Finding.isMissing]
      | link => simp [examineEntry]
      | device => simp [examineEntry]

theorem isMissing_of_mem_walkWith {budget depth : Nat} :
    ∀ finding ∈ walkWith read options start budget depth path node,
      finding.isMissing = false := by
  induction budget generalizing depth path node with
  | zero => simp [Finding.isMissing]
  | succ budget inductionHypothesis =>
      rcases walkWith_succ_cases read options start budget depth path node with
        isExcluded | ⟨error, isUnreadable⟩ | ⟨listed, _, entered⟩
      · simp [isExcluded, Finding.isMissing]
      · simp [isUnreadable, Finding.isMissing]
      · intro finding member
        rw [entered, List.mem_flatMap] at member
        obtain ⟨reading, _, member⟩ := member
        exact isMissing_of_mem_examineEntry (fun _ _ => inductionHypothesis) finding member

/-- A given path is found missing once, and only if it does not exist. -/
theorem countP_isMissing_examine :
    (examine options find path read).countP Finding.isMissing =
      if doesExist find path then 0 else 1 := by
  rcases examine_cases options find path read with
    ⟨error, leads, found⟩ | ⟨content, leads, found⟩ | ⟨node, leads, _, found⟩
  · rw [found, doesExist, leads]
    rfl
  · rw [found, doesExist, leads]
    rfl
  · have isThere : doesExist find path = true := by rw [doesExist, leads]; rfl
    rw [found, if_pos isThere, List.countP_eq_zero]
    intro finding member
    rw [isMissing_of_mem_walkWith finding member]
    exact Bool.false_ne_true

theorem countP_isMissing_findings :
    (findings options find paths read).countP Finding.isMissing =
      paths.countP (!doesExist find ·) := by
  induction paths with
  | nil => rfl
  | cons path rest inductionHypothesis =>
      rw [findings, List.flatMap_cons, List.countP_append, countP_isMissing_examine,
        List.countP_cons, Nat.add_comm, ← inductionHypothesis]
      cases doesExist find path <;> rfl

/-- A warning is about a missing path or it is an error. -/
theorem countP_warns (found : List Finding) :
    found.countP Finding.warns = found.countP Finding.isMissing + found.countP Finding.isError := by
  rw [List.countP_eq_countP_filter_add _ _ Finding.isMissing, List.countP_filter,
    List.countP_filter]
  congr 1
  · apply List.countP_congr
    intro finding _
    cases finding <;> simp [Finding.warns, Finding.isMissing]
  · apply List.countP_congr
    intro finding _
    cases finding <;> simp [Finding.warns, Finding.isMissing, Finding.isError]

theorem any_doesExist (given : path ∈ paths) (leads : find path = .ok node) :
    paths.any (doesExist find) = true := by
  rw [List.any_eq_true]
  exact ⟨path, given, by rw [doesExist, leads]; rfl⟩

/-- Where no given path exists, nothing is found. -/
theorem getD_discover :
    (discover options find paths read).getD ⟨[], 0⟩ =
      ofFindings (findings options find paths read) := by
  rw [discover]
  split
  · rfl
  · next noneExists =>
      have missing : ∀ finding ∈ findings options find paths read,
          ∃ path, finding = .missing path := by
        intro finding member
        obtain ⟨path, given, member⟩ := List.mem_flatMap.mp member
        rcases examine_cases options find path read with
          ⟨error, _, found⟩ | ⟨content, leads, _⟩ | ⟨node, leads, _⟩
        · rw [found, List.mem_singleton] at member
          exact ⟨path, member⟩
        · exact absurd (any_doesExist given leads) noneExists
        · exact absurd (any_doesExist given leads) noneExists
      have noFiles : (findings options find paths read).filterMap Finding.file? = [] := by
        rw [List.filterMap_eq_nil_iff]
        intro finding member
        obtain ⟨path, rfl⟩ := missing finding member
        rfl
      have noErrors : (findings options find paths read).countP Finding.isError = 0 := by
        rw [List.countP_eq_zero]
        intro finding member
        obtain ⟨path, rfl⟩ := missing finding member
        exact Bool.false_ne_true
      rw [Option.getD_none, ofFindings, noFiles, noErrors, Path.sort, List.mergeSort_nil]
      rfl

/-- There is one warning for each given path that does not exist and one for each error. -/
theorem length_warnings_log :
    (Log.warnings (log options find paths read)).length =
      paths.countP (!doesExist find ·) +
        (discover options find paths read).elim 0 (·.errors) := by
  have oneEach : (Log.warnings (log options find paths read)).length =
      (findings options find paths read).countP Finding.warns := by
    rw [warnings_log, List.length_filterMap_eq_countP, List.countP_filter]
    apply List.countP_congr
    intro finding _
    rw [Bool.and_eq_true, and_iff_right_of_imp Finding.isSome_record?_of_warns]
  have errors : (discover options find paths read).elim 0 (·.errors) =
      (findings options find paths read).countP Finding.isError :=
    calc
      (discover options find paths read).elim 0 (·.errors) =
          ((discover options find paths read).getD ⟨[], 0⟩).errors := by
        cases discover options find paths read <;> rfl
      _ = (ofFindings (findings options find paths read)).errors := by rw [getD_discover]
  rw [oneEach, countP_warns, countP_isMissing_findings, errors]

end Discovery

end LineTally
