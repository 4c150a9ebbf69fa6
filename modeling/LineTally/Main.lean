import LineTally.CommandLine.Program

/-!
# The command line program

The outer layer: it looks at the files that a run may ask for, makes the run, and
prints what the run leaves behind.
-/

namespace LineTally.Main

/-- The error that the system reports. -/
def fileError : IO.Error → FileError
  | .permissionDenied .. => .permissionDenied
  | .inappropriateType .. => .isADirectory
  | _ => .notFound

/-- What lies at an entry of a directory, to a depth of `budget` directories.  The
content of files is read later. -/
def nodeOfEntry : Nat → IO.FS.DirEntry → IO Node
  | 0, _ => return .emptyDirectory
  | budget + 1, entry => do
      match (← entry.path.symlinkMetadata).type with
      | .file => return .file []
      | .symlink => return .link []
      | .dir =>
          let entries ← (← entry.path.readDir).toList.mapM fun inner => do
            return (Utf8.encode inner.fileName.toList, ← nodeOfEntry budget inner)
          return .directory entries
      | .other => return .device

/-- The text under which the system knows a path. -/
def systemName (path : Path) : String :=
  String.ofList path.display

/-- What a path leads to, to a depth of `budget` directories. -/
def look (budget : Nat) (path : Path) : IO (Except FileError Node) := do
  if path.bytes.isEmpty then return .error .notFound
  let place := (← IO.currentDir) / systemName path
  try
    match (← place.metadata).type with
    | .file => return .ok (.file [])
    | .dir =>
        let entries ← (← place.readDir).toList.mapM fun entry => do
          return (Utf8.encode entry.fileName.toList, ← nodeOfEntry budget entry)
        return .ok (.directory entries)
    | _ => return .ok .device
  catch error => return .error (fileError error)

/-- The bytes of a file. -/
def readFile (path : Path) : IO (Except FileError Bytes) := do
  try
    let bytes ← IO.FS.readBinFile ((← IO.currentDir) / systemName path)
    return .ok bytes.toList
  catch error => return .error (fileError error)

/-- A function that is known at some paths. -/
def known {α : Type} (values : List (Path × Except FileError α)) (path : Path) :
    Except FileError α :=
  match values.find? (·.1 = path) with
  | some (_, value) => value
  | none => .error .notFound

/-- The files that a run will count. -/
def filesToCount (options : Options) (find : Path → Except FileError Node) : List Path :=
  match options.walkOptions with
  | .error _ => []
  | .ok walkOptions =>
      ((Discovery.discover walkOptions find options.paths).map (·.files)).getD []

/-- Make a run in the real file system. -/
def runIn (options : Options) (forced : Bool) : IO Exit := do
  let started ← IO.monoNanosNow
  let nodes ← options.paths.mapM fun path => do
    return (path, ← look (options.maxDepth + 1) path)
  let contents ← (filesToCount options (known nodes)).mapM fun path => do
    return (path, ← readFile path)
  let run ← IO.lazyPure fun _ => Run.ofOptions options (known nodes) (known contents)
  let elapsed := Elapsed.ofParts 0 ((← IO.monoNanosNow) - started)
  return run.toExit options forced elapsed

end LineTally.Main

open LineTally in
/-- Count the lines of the files that the arguments name. -/
def main (arguments : List String) : IO UInt32 := do
  let stdout ← IO.getStdout
  let forced := (← stdout.isTty) || ((← IO.getEnv "CLICOLOR_FORCE").any (· ≠ "0"))
  let exit ←
    match CommandLine.parse (arguments.map fun argument => Utf8.encode argument.toList) with
    | .run options => Main.runIn options forced
    | invocation => pure (CommandLine.exitWithoutRun invocation)
  stdout.putStr (String.ofList exit.output)
  stdout.flush
  (← IO.getStderr).putStr (String.ofList exit.errors)
  return exit.code.toUInt32
