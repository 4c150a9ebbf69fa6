import LineTally.CommandLine.Program
import LineTally.FileSystem.Basic
import Mathlib.Data.List.Basic

/-!
# When a run fails

There are two reasons for a run to fail, and both lie in its arguments: the filespec is
malformed, or none of the given paths exists.  The filespec is looked at first.  What goes
wrong later concerns a single file or a single place and ends nothing
(`Run.ofOptions_cases`), so a run that fails prints an error and no report
(`run_fails_by_its_arguments_only`).
-/

namespace LineTally

/-- The filespec, if there is one, is a pattern. -/
def Options.FilespecCompiles (options : Options) : Prop :=
  ∀ spec ∈ options.filespec, ∃ pattern, Glob.Pattern.compile spec = .ok pattern

theorem Options.not_filespecCompiles {options : Options} {spec : Text} {error : Glob.PatternError}
    (given : options.filespec = some spec) (malformed : Glob.Pattern.compile spec = .error error) :
    ¬ options.FilespecCompiles := by
  intro compiles
  obtain ⟨pattern, compiled⟩ := compiles spec given
  rw [malformed] at compiled
  contradiction

/-- Either the filespec is malformed, or the options say how to search. -/
theorem Options.walkOptions_cases (options : Options) :
    (∃ spec error, options.filespec = some spec ∧ Glob.Pattern.compile spec = .error error ∧
      options.walkOptions = .error (.badFilespec spec error)) ∨
    (options.FilespecCompiles ∧ ∃ walkOptions, options.walkOptions = .ok walkOptions) := by
  unfold Options.walkOptions compileFilespec FilespecCompiles
  cases options.filespec with
  | none => exact .inr ⟨by simp, _, rfl⟩
  | some spec =>
      cases compiled : Glob.Pattern.compile spec with
      | error error => exact .inl ⟨spec, error, rfl, compiled, by simp only [compiled]; rfl⟩
      | ok pattern =>
          refine .inr ⟨?_, _, by simp only [compiled]; rfl⟩
          intro spec' given
          cases given
          exact ⟨pattern, compiled⟩

namespace Discovery

/-- What the log says about a given path that does not exist. -/
def missingRecord (path : Path) : Log.Record :=
  ⟨.warn, .discovery, "Path does not exist: ".toList ++ path.display⟩

variable {options : WalkOptions} {find : Path → Except FileError Node} {paths : List Path}
  {list : DirectoryReader}

theorem findings_of_none_exist (missing : ∀ path ∈ paths, doesExist find path = false) :
    findings options find paths list = paths.map .missing := by
  rw [findings, List.map_eq_flatMap]
  apply List.flatMap_congr
  intro path given
  have absent := missing path given
  unfold doesExist at absent
  cases leads : find path with
  | ok node =>
      rw [leads] at absent
      contradiction
  | error error =>
      rw [examine, leads]

/-- Where no path exists, the log says so of each of them and no more. -/
theorem log_of_none_exist (missing : ∀ path ∈ paths, doesExist find path = false) :
    log options find paths list = paths.map missingRecord := by
  have noneExist : ¬ paths.any (doesExist find) = true := by
    rw [List.any_eq_true]
    rintro ⟨path, given, isThere⟩
    rw [missing path given] at isThere
    contradiction
  rw [log, findings_of_none_exist missing, discover, if_neg noneExist, List.filterMap_map,
    List.append_nil, ← List.filterMap_eq_map]
  rfl

end Discovery

namespace Run

open Discovery

/-- What a run can come to. -/
theorem ofOptions_cases (options : Options) (find : Path → Except FileError Node)
    (read : Path → Except FileError Bytes) (list : DirectoryReader) :
    (∃ spec error, options.filespec = some spec ∧ Glob.Pattern.compile spec = .error error ∧
      ofOptions options find read list = ⟨[], .error (.badFilespec spec error)⟩) ∨
    (options.FilespecCompiles ∧ (∀ path ∈ options.paths, doesExist find path = false) ∧
      ofOptions options find read list =
        ⟨options.paths.map missingRecord, .error .noInputs⟩) ∨
    (options.FilespecCompiles ∧ (∃ path ∈ options.paths, doesExist find path = true) ∧
      ∃ walkOptions found log, options.walkOptions = .ok walkOptions ∧
        discover walkOptions find options.paths list = some found ∧
        ofOptions options find read list = ⟨log, .ok (countAll read found.files)⟩) := by
  unfold ofOptions
  rcases options.walkOptions_cases with
    ⟨spec, error, given, malformed, failed⟩ | ⟨compiles, walkOptions, searches⟩
  · exact .inl ⟨spec, error, given, malformed, by rw [failed]⟩
  · rw [searches]
    by_cases someExist : options.paths.any (doesExist find) = true
    · refine .inr (.inr ⟨compiles, List.any_eq_true.mp someExist, ?_⟩)
      simp only [discover, if_pos someExist]
      exact ⟨walkOptions, _, _, rfl, rfl, rfl⟩
    · have missing : ∀ path ∈ options.paths, doesExist find path = false := by
        simpa using someExist
      refine .inr (.inl ⟨compiles, missing, ?_⟩)
      simp only [discover, if_neg someExist, log_of_none_exist missing]

section

variable {options : Options} {find : Path → Except FileError Node}
  (read : Path → Except FileError Bytes) (list : DirectoryReader)

/-- A malformed filespec is found before any path is looked at. -/
theorem ofOptions_of_malformed {spec : Text} {error : Glob.PatternError}
    (given : options.filespec = some spec)
    (malformed : Glob.Pattern.compile spec = .error error) :
    ofOptions options find read list = ⟨[], .error (.badFilespec spec error)⟩ := by
  rcases ofOptions_cases options find read list with
    ⟨spec', error', given', malformed', failed⟩ | ⟨compiles, _⟩ | ⟨compiles, _⟩
  · cases given.symm.trans given'
    cases malformed.symm.trans malformed'
    exact failed
  · exact absurd compiles (Options.not_filespecCompiles given malformed)
  · exact absurd compiles (Options.not_filespecCompiles given malformed)

theorem ofOptions_of_none_exist (compiles : options.FilespecCompiles)
    (missing : ∀ path ∈ options.paths, doesExist find path = false) :
    ofOptions options find read list =
      ⟨options.paths.map missingRecord, .error .noInputs⟩ := by
  rcases ofOptions_cases options find read list with
    ⟨spec, error, given, malformed, _⟩ | ⟨_, _, failed⟩ | ⟨_, ⟨path, given, isThere⟩, _⟩
  · exact absurd compiles (Options.not_filespecCompiles given malformed)
  · exact failed
  · rw [missing path given] at isThere
    contradiction

/-- A run that may succeed counts the files that are found. -/
theorem ofOptions_of_exists (compiles : options.FilespecCompiles)
    (someExist : ∃ path ∈ options.paths, doesExist find path = true) :
    ∃ walkOptions found log, options.walkOptions = .ok walkOptions ∧
      discover walkOptions find options.paths list = some found ∧
      ofOptions options find read list = ⟨log, .ok (countAll read found.files)⟩ := by
  rcases ofOptions_cases options find read list with
    ⟨spec, error, given, malformed, _⟩ | ⟨_, missing, _⟩ | ⟨_, _, counted⟩
  · exact absurd compiles (Options.not_filespecCompiles given malformed)
  · obtain ⟨path, given, isThere⟩ := someExist
    rw [missing path given] at isThere
    contradiction
  · exact counted

end

/-- The warnings about missing paths are all shown. -/
theorem toExit_of_no_inputs (options : Options) (forced : Bool) (elapsed : Elapsed) :
    (Run.mk (options.paths.map missingRecord) (.error .noInputs)).toExit options forced elapsed =
      { code := 1
        output := []
        errors := (options.paths.map missingRecord).flatMap (Log.Record.render forced) ++
          failureLine (forced && !options.noColor) .noInputs } := by
  have shown : (options.paths.map missingRecord).filter (Log.Record.isShown options.verbose) =
      options.paths.map missingRecord := by
    rw [List.filter_eq_self]
    intro record member
    obtain ⟨path, _, rfl⟩ := List.mem_map.mp member
    rfl
  simp only [toExit, shown]

/-- The code of a run that has ended. -/
theorem code_toExit_ofOptions (options : Options) (forced : Bool) (elapsed : Elapsed)
    (find : Path → Except FileError Node) (read : Path → Except FileError Bytes)
    (list : DirectoryReader) :
    let code := ((ofOptions options find read list).toExit options forced elapsed).code
    let mayRun := options.FilespecCompiles ∧ ∃ path ∈ options.paths, doesExist find path = true
    (code = 0 ∧ mayRun) ∨ (code = 1 ∧ ¬ mayRun) := by
  intro code mayRun
  rcases ofOptions_cases options find read list with
    ⟨spec, error, given, malformed, ended⟩ | ⟨_, missing, ended⟩ |
      ⟨compiles, someExist, _, _, _, _, _, ended⟩
  · refine .inr ⟨by simp only [code, ended]; rfl, fun may => ?_⟩
    exact Options.not_filespecCompiles given malformed may.1
  · refine .inr ⟨by simp only [code, ended]; rfl, fun may => ?_⟩
    obtain ⟨path, given, isThere⟩ := may.2
    rw [missing path given] at isThere
    contradiction
  · exact .inl ⟨by simp only [code, ended]; rfl, compiles, someExist⟩

end Run

open Discovery in
/-- A run that the command line asks for succeeds just if the filespec, if there is one, is a
pattern and one of the given paths exists; it then prints the report that was asked for.  A
run that fails ends with code 1, prints nothing, and says one error: that the filespec is
malformed, if it is, even where no path exists, and otherwise that no path exists, behind a
warning of each.  How directories are read, what the files hold, and which of them can be
read makes no difference to that. -/
theorem run_fails_by_its_arguments_only {arguments : List Bytes} {options : Options}
    (accepted : CommandLine.parse arguments = .run options) (forced : Bool) (elapsed : Elapsed)
    (find : Path → Except FileError Node) (read : Path → Except FileError Bytes)
    (list : DirectoryReader) :
    let exit := CommandLine.exitOf arguments forced elapsed find read list
    let color := forced && !options.noColor
    (exit.code = 0 ↔
      options.FilespecCompiles ∧ ∃ path ∈ options.paths, doesExist find path = true) ∧
    (exit.code = 0 →
      ∃ walkOptions found, options.walkOptions = .ok walkOptions ∧
        discover walkOptions find options.paths list = some found ∧
        exit.output = Run.report options color elapsed (countAll read found.files)) ∧
    (∀ spec error, options.filespec = some spec → Glob.Pattern.compile spec = .error error →
      exit =
        { code := 1
          output := []
          errors := Run.failureLine color (.badFilespec spec error) }) ∧
    (options.FilespecCompiles → (∀ path ∈ options.paths, doesExist find path = false) →
      exit =
        { code := 1
          output := []
          errors := (options.paths.map missingRecord).flatMap (Log.Record.render forced) ++
            Run.failureLine color .noInputs }) ∧
    ∀ find' read' list', (∀ path ∈ options.paths, doesExist find' path = doesExist find path) →
      (CommandLine.exitOf arguments forced elapsed find' read' list').code = exit.code := by
  have runs (find read list) : CommandLine.exitOf arguments forced elapsed find read list =
      (Run.ofOptions options find read list).toExit options forced elapsed := by
    rw [CommandLine.exitOf, accepted]
  have ended := Run.code_toExit_ofOptions options forced elapsed find read list
  simp only [runs]
  refine ⟨?_, ?_, ?_, ?_, ?_⟩
  · rcases ended with ⟨succeeds, may⟩ | ⟨fails, mayNot⟩
    · exact iff_of_true succeeds may
    · exact iff_of_false (by rw [fails]; exact Nat.one_ne_zero) mayNot
  · intro succeeds
    have may : options.FilespecCompiles ∧
        ∃ path ∈ options.paths, doesExist find path = true := by
      rcases ended with ⟨_, may⟩ | ⟨fails, _⟩
      · exact may
      · rw [succeeds] at fails
        contradiction
    obtain ⟨walkOptions, found, log, searches, discovered, counted⟩ :=
      Run.ofOptions_of_exists read list may.1 may.2
    exact ⟨walkOptions, found, searches, discovered, by rw [counted]; rfl⟩
  · intro spec error given malformed
    rw [Run.ofOptions_of_malformed read list given malformed]
    rfl
  · intro compiles missing
    rw [Run.ofOptions_of_none_exist read list compiles missing, Run.toExit_of_no_inputs]
  · intro find' read' list' same
    have ended' := Run.code_toExit_ofOptions options forced elapsed find' read' list'
    have exist : (∃ path ∈ options.paths, doesExist find' path = true) ↔
        ∃ path ∈ options.paths, doesExist find path = true :=
      exists_congr fun path => and_congr_right fun given => by rw [same path given]
    simp only [exist] at ended'
    rcases ended with ⟨code, may⟩ | ⟨code, mayNot⟩
    · exact (ended'.resolve_right fun failed => failed.2 may).1.trans code.symm
    · exact (ended'.resolve_left fun succeeded => mayNot succeeded.2).1.trans code.symm

/-- A comment that is never closed, a binary file, one in no language, and one that lies too
deep if no directory may be entered. -/
def troubledFiles : FileSystem :=
  .ofEntries [
    (.ofText "a.c".toList, .file (Utf8.encode "/* open".toList)),
    (.ofText "b".toList, .file [0]),
    (.ofText "c".toList, .file []),
    (.ofText "d/e.c".toList, .file [])]

open Discovery in
/-- Among these files a run succeeds, even if no file can be read and one of the given paths is
no text; it fails if the filespec is malformed, whether or not the given path exists, and if no
path exists. -/
theorem run_among_troubled_files :
    let find := troubledFiles.find
    let unreadable := fun _ => .error FileError.permissionDenied
    let sparse := ["-f", "*.c", "-d", "0", "."].map (Utf8.encode ·.toList) ++ [[0xFF]]
    let malformed := ["x", "-f", "["].map (Utf8.encode ·.toList)
    let missing := ["x", "-v"].map (Utf8.encode ·.toList)
    let options : Options :=
      { paths := [.ofText ".".toList, ⟨[0xFF]⟩]
        filespec := some "*.c".toList
        maxDepth := 0 }
    (CommandLine.parse sparse = .run options ∧
      (CommandLine.exitOf sparse false {} find troubledFiles.read).code = 0 ∧
      (∃ walkOptions found, options.walkOptions = .ok walkOptions ∧
        discover walkOptions find options.paths = some found ∧
        (CommandLine.exitOf sparse false {} find troubledFiles.read).output =
          Run.report options false {} (countAll troubledFiles.read found.files)) ∧
      (CommandLine.exitOf sparse false {} find unreadable).code = 0) ∧
    (CommandLine.parse malformed =
        .run { paths := [.ofText "x".toList], filespec := some "[".toList } ∧
      CommandLine.exitOf malformed false {} find troubledFiles.read =
        { code := 1
          output := []
          errors := ("error: Invalid filespec pattern '[': Pattern syntax error near " ++
            "position 0: invalid range pattern\n").toList }) ∧
    CommandLine.parse missing = .run { paths := [.ofText "x".toList], verbose := true } ∧
      CommandLine.exitOf missing false {} find troubledFiles.read =
        { code := 1
          output := []
          errors := ("[WARN  clocrs::discovery] Path does not exist: x\n" ++
            "error: none of the given paths exist\n").toList } := by
  intro find unreadable sparse malformed missing options
  have sparseRun : CommandLine.parse sparse = .run options := by decide +kernel
  have malformedRun : CommandLine.parse malformed =
      .run { paths := [.ofText "x".toList], filespec := some "[".toList } := by
    decide +kernel
  have missingRun : CommandLine.parse missing =
      .run { paths := [.ofText "x".toList], verbose := true } := by
    decide +kernel
  refine ⟨⟨sparseRun, ?_⟩, ⟨malformedRun, ?_⟩, missingRun, ?_⟩
  · obtain ⟨succeeds, prints, _, _, same⟩ :=
      run_fails_by_its_arguments_only sparseRun false {} find troubledFiles.read .ofTree
    have compiles : Glob.Pattern.compile "*.c".toList =
        .ok ⟨[.anySequence, .literal '.', .literal 'c']⟩ := by
      decide +kernel
    have code := succeeds.mpr ⟨by rintro _ ⟨⟩; exact ⟨_, compiles⟩, by decide +kernel⟩
    exact ⟨code, prints code, (same find unreadable .ofTree fun _ _ => rfl).trans code⟩
  · obtain ⟨_, _, fails, _⟩ :=
      run_fails_by_its_arguments_only malformedRun false {} find troubledFiles.read .ofTree
    exact (fails "[".toList ⟨0, .badRange⟩ rfl (by decide +kernel)).trans (by decide +kernel)
  · obtain ⟨_, _, _, fails, _⟩ :=
      run_fails_by_its_arguments_only missingRun false {} find troubledFiles.read .ofTree
    exact (fails (by rintro _ ⟨⟩) (by decide +kernel)).trans (by decide +kernel)

end LineTally
