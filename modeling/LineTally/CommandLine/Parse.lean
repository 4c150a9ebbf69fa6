import LineTally.CommandLine.Options

/-!
# Reading the command line

Arguments are read from left to right, and the first one that settles what to do
ends the reading: a mistake, or a request for the version or for help.

An option is written with one dash and a letter, or with two dashes and a name.
Letters of options without a value may be run together.  A value is the rest of
the word after the letter, the text after an equals sign, or the next argument,
which must not look like an option.  After two dashes alone, all arguments are
paths.

Arguments are bytes.  A path may be any bytes; the name of an option and its value
have to be text.
-/

namespace LineTally

/-- What the command line asks for. -/
inductive Invocation where
  | run (options : Options)
  | version
  | help
  /-- The command line makes no sense. -/
  | misuse
deriving DecidableEq, Repr

namespace CommandLine

/-- The byte that an option starts with. -/
@[match_pattern]
abbrev dash : UInt8 := 0x2D

/-- The byte before the value of an option. -/
@[match_pattern]
abbrev equalsSign : UInt8 := 0x3D

/-- An option without a value. -/
inductive Flag where
  | nonRecursive
  | byFile
  | noColor
  | verbose
  | version
  | help
deriving DecidableEq, Repr

/-- An option with a value. -/
inductive Setting where
  | excludeDir
  | filespec
  | maxDepth
  | format
  | jobs
deriving DecidableEq, Repr

/-- An option. -/
inductive Switch where
  | flag (flag : Flag)
  | setting (setting : Setting)
deriving DecidableEq, Repr

/-- The option of this name. -/
def Switch.ofName? (name : Text) : Option Switch :=
  match String.ofList name with
  | "non-recursive" => some (.flag .nonRecursive)
  | "by-file" => some (.flag .byFile)
  | "no-color" => some (.flag .noColor)
  | "verbose" => some (.flag .verbose)
  | "version" => some (.flag .version)
  | "help" => some (.flag .help)
  | "exclude-dir" => some (.setting .excludeDir)
  | "filespec" => some (.setting .filespec)
  | "max-depth" => some (.setting .maxDepth)
  | "format" => some (.setting .format)
  | "jobs" => some (.setting .jobs)
  | _ => none

/-- The option of this letter. -/
def Switch.ofLetter? : Char → Option Switch
  | 'n' => some (.flag .nonRecursive)
  | 'v' => some (.flag .verbose)
  | 'V' => some (.flag .version)
  | 'h' => some (.flag .help)
  | 'f' => some (.setting .filespec)
  | 'd' => some (.setting .maxDepth)
  | 'j' => some (.setting .jobs)
  | _ => none

/-- What has been given so far. -/
structure Given where
  paths : List Path := []
  excludedNames : List Text := []
  filespec : Option Text := none
  maxDepth : Option Nat := none
  format : Option Report.Format := none
  jobs : Option Nat := none
  nonRecursive : Bool := false
  byFile : Bool := false
  noColor : Bool := false
  verbose : Bool := false
deriving DecidableEq, Repr

/-- The options that have been given, and the defaults of the others.  Without a
path, the run looks at the working directory. -/
def Given.toOptions (given : Given) : Options :=
  { paths := if given.paths.isEmpty then [.ofText ['.']] else given.paths
    excludedNames := given.excludedNames
    filespec := given.filespec
    maxDepth := given.maxDepth.getD 100
    nonRecursive := given.nonRecursive
    format := given.format.getD .text
    byFile := given.byFile
    jobs := given.jobs
    noColor := given.noColor
    verbose := given.verbose }

/-- The greatest number that a value may be. -/
def numberLimit : Nat := 0xFFFFFFFFFFFFFFFF

/-- A number: decimal digits, with a plus sign before them or without. -/
def number? (text : Text) : Option Nat :=
  let digits := match text with
    | '+' :: digits => digits
    | digits => digits
  if digits.isEmpty || !digits.all Char.isDigit then none
  else
    let n := digits.foldl (fun n c => 10 * n + (c.toNat - '0'.toNat)) 0
    if n ≤ numberLimit then some n else none

/-- Why reading goes on or ends after a part of the command line. -/
abbrev Step := Except Invocation Given

/-- A path; an empty one is a mistake. -/
def Given.addPath (given : Given) (path : Bytes) : Step :=
  if path.isEmpty then .error .misuse
  else .ok { given with paths := given.paths ++ [⟨path⟩] }

/-- An option without a value; none may be given twice. -/
def Given.addFlag (given : Given) : Flag → Step
  | .version => .error .version
  | .help => .error .help
  | .nonRecursive =>
      if given.nonRecursive then .error .misuse else .ok { given with nonRecursive := true }
  | .byFile => if given.byFile then .error .misuse else .ok { given with byFile := true }
  | .noColor => if given.noColor then .error .misuse else .ok { given with noColor := true }
  | .verbose => if given.verbose then .error .misuse else .ok { given with verbose := true }

/-- Keep the value of an option that may be given once only. -/
def once {α : Type} (before value : Option α) (keep : α → Given) : Step :=
  match before, value with
  | none, some value => .ok (keep value)
  | _, _ => .error .misuse

/-- An option with its value.  Only names of directories may be given more than
once. -/
def Given.addText (given : Given) (setting : Setting) (value : Text) : Step :=
  match setting with
  | .excludeDir => .ok { given with excludedNames := given.excludedNames ++ [value] }
  | .filespec => once given.filespec (some value) fun v => { given with filespec := some v }
  | .maxDepth => once given.maxDepth (number? value) fun v => { given with maxDepth := some v }
  | .format =>
      once given.format (Report.Format.ofName? (String.ofList value))
        fun v => { given with format := some v }
  | .jobs => once given.jobs (number? value) fun v => { given with jobs := some v }

/-- An option with its value, which has to be text. -/
def Given.addSetting (given : Given) (setting : Setting) (value : Bytes) : Step :=
  match Utf8.decode? value with
  | none => .error .misuse
  | some text => given.addText setting text

/-- What an argument amounts to by itself. -/
inductive Reading where
  | done (given : Given)
  /-- An option that waits for the next argument. -/
  | waiting (given : Given) (setting : Setting)

/-- Options that are written as letters, run together.  All letters are ASCII, so a
byte that is none is a mistake whether or not it is text. -/
def readLetters (given : Given) : Bytes → Except Invocation Reading
  | [] => .ok (.done given)
  | letter :: rest =>
      match Switch.ofLetter? (Char.ofNat letter.toNat) with
      | none => .error .misuse
      | some (.flag flag) => do readLetters (← given.addFlag flag) rest
      | some (.setting setting) =>
          match rest with
          | [] => .ok (.waiting given setting)
          | equalsSign :: value => return .done (← given.addSetting setting value)
          | value => return .done (← given.addSetting setting value)

/-- An option that is written as a name, with a value after an equals sign or
without. -/
def readName (given : Given) (argument : Bytes) : Except Invocation Reading :=
  let name := argument.takeWhile (· ≠ equalsSign)
  let value := (argument.dropWhile (· ≠ equalsSign)).tail?
  match (Utf8.decode? name).bind Switch.ofName?, value with
  | some (.flag flag), none => return .done (← given.addFlag flag)
  | some (.setting setting), some value => return .done (← given.addSetting setting value)
  | some (.setting setting), none => .ok (.waiting given setting)
  | _, _ => .error .misuse

/-- One argument, as long as options are possible. -/
def readArgument (given : Given) : Bytes → Except Invocation Reading
  | dash :: dash :: name => readName given name
  | dash :: letter :: letters => readLetters given (letter :: letters)
  | path => return .done (← given.addPath path)

/-- Whether an argument looks like an option; a dash alone does not. -/
def looksLikeOption : Bytes → Bool
  | dash :: _ :: _ => true
  | _ => false

/-- Arguments that are all paths. -/
def readPaths (given : Given) (paths : List Bytes) : Step :=
  paths.foldlM Given.addPath given

/-- The arguments from left to right. -/
def readArguments (given : Given) : List Bytes → Step
  | [] => .ok given
  | argument :: rest =>
      if argument = [dash, dash] then readPaths given rest
      else do
        match ← readArgument given argument with
        | .done given => readArguments given rest
        | .waiting given setting =>
            match rest with
            | [] => .error .misuse
            | value :: rest =>
                if looksLikeOption value then .error .misuse
                else readArguments (← given.addSetting setting value) rest

/-- What the arguments ask for. -/
def parse (arguments : List Bytes) : Invocation :=
  match readArguments {} arguments with
  | .ok given => .run given.toOptions
  | .error invocation => invocation

end CommandLine

end LineTally
