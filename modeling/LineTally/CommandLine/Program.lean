import LineTally.CommandLine.Parse
import LineTally.CommandLine.Run

/-!
# The program

From the arguments to what the program leaves behind.
-/

namespace LineTally.CommandLine

/-- What is printed for the version. -/
def versionLine : Text :=
  Report.Table.programName ++ ' ' :: Report.Table.programVersion ++ ['\n']

/-- What is printed for help. -/
def helpText : Text :=
  ("Count blank, comment and code lines per language\n\n" ++
    "Usage: clocrs [OPTIONS] [PATHS]...\n\n" ++
    "Options:\n" ++
    "      --exclude-dir <NAME>   Directory name to skip (repeatable)\n" ++
    "  -f, --filespec <GLOB>      Only count files whose name or relative path matches\n" ++
    "  -d, --max-depth <N>        Deepest level of directories to enter [default: 100]\n" ++
    "  -n, --non-recursive        Do not enter directories inside the given ones\n" ++
    "      --format <FORMAT>      text, json or csv [default: text]\n" ++
    "      --by-file              Print one CSV row per file\n" ++
    "  -j, --jobs <N>             Worker threads\n" ++
    "      --no-color             Never use colour\n" ++
    "  -v, --verbose              Tell more about the progress\n" ++
    "  -h, --help                 Print help\n" ++
    "  -V, --version              Print version\n").toList

/-- What is said about a command line that makes no sense. -/
def misuseText : Text :=
  "error: invalid arguments; try '--help'\n".toList

/-- The end of a program that makes no run. -/
def exitWithoutRun : Invocation → Exit
  | .version => { code := 0, output := versionLine }
  | .help => { code := 0, output := helpText }
  | _ => { code := 2, errors := misuseText }

/-- What the program leaves behind. -/
def exitOf (arguments : List Bytes) (forced : Bool) (elapsed : Elapsed)
    (find : Path → Except FileError Node) (read : Path → Except FileError Bytes)
    (list : DirectoryReader := .ofTree) : Exit :=
  match parse arguments with
  | .run options => (Run.ofOptions options find read list).toExit options forced elapsed
  | invocation => exitWithoutRun invocation

end LineTally.CommandLine
