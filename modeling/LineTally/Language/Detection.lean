import LineTally.Path.Basic
import LineTally.Text.Lines

/-!
# Detection

What kind of file it is: whether it is binary, and in which language it is
written.  The file name is asked first; only if it says nothing, the first line
is.  Languages are known by listings of spellings.
-/

namespace LineTally

/-- Languages, each with the spellings by which it is known. -/
abbrev Listing := List (String × List String)

/-- The first language that lists a spelling. -/
def Listing.languageOf? (listing : Listing) (spelling : String) : Option String :=
  (listing.find? fun entry => entry.2.contains spelling).map (·.1)

/-! ## File names

A few whole file names belong to a language, and so does every name that starts
with `dockerfile`; for all other names the extension decides.  Letter case does
not matter.  Names are compared with spellings in lower-case ASCII, where only
characters whose lower-case form is one ASCII character can make a difference:
the capital letters of ASCII and the Kelvin sign. -/

/-- The lower-case form of a character if that is one ASCII character, otherwise
the character itself. -/
def lowerChar (c : Char) : Char :=
  if c = '\u212A' then 'k' else c.toLower

/-- Lower-case as far as a comparison with ASCII text can tell. -/
def Text.lower (text : Text) : Text :=
  text.map lowerChar

namespace FileName

/-- The languages that are known by whole file names, in lower case. -/
def wholeNames : Listing :=
  [ ("make", ["makefile", "gnumakefile", "bsdmakefile"]),
    ("CMake", ["cmakelists.txt"]),
    ("Maven", ["pom.xml"]) ]

/-- The languages that are known by extensions, in lower case. -/
def extensions : Listing :=
  [ ("Python", ["py", "pyw", "pyi"]),
    ("Cython", ["pyx", "pxd", "pxi"]),
    ("C", ["c"]),
    ("C/C++ Header", ["h", "hpp", "hxx"]),
    ("C++", ["cpp", "cc", "cxx", "c++", "h++"]),
    ("Java", ["java"]),
    ("JSP", ["jsp", "jspf"]),
    ("JavaScript", ["js", "mjs", "cjs"]),
    ("JSX", ["jsx"]),
    ("TypeScript", ["ts", "tsx"]),
    ("HTML", ["html", "htm"]),
    ("XHTML", ["xhtml"]),
    ("CSS", ["css"]),
    ("XML", ["xml"]),
    ("SVG", ["svg"]),
    ("Bourne Again Shell", ["sh", "bash"]),
    ("Zsh", ["zsh"]),
    ("Fish Shell", ["fish"]),
    ("C Shell", ["csh"]),
    ("Korn Shell", ["ksh"]),
    ("Ruby", ["rb"]),
    ("Perl", ["pl", "pm"]),
    ("PHP", ["php"]),
    ("Rust", ["rs"]),
    ("Go", ["go"]),
    ("Swift", ["swift"]),
    ("Kotlin", ["kt"]),
    ("Scala", ["scala"]),
    ("Clojure", ["clj"]),
    ("Haskell", ["hs"]),
    ("OCaml", ["ml"]),
    ("F#", ["fs"]),
    ("C#", ["cs"]),
    ("Visual Basic", ["vb"]),
    ("Fortran 77", ["f"]),
    ("Fortran 90", ["f90"]),
    ("Fortran 95", ["f95"]),
    ("Pascal", ["pas"]),
    ("Ada", ["ada"]),
    ("Assembly", ["asm", "s"]),
    ("JSON", ["json"]),
    ("YAML", ["yaml", "yml"]),
    ("TOML", ["toml"]),
    ("INI", ["ini", "cfg", "conf"]),
    ("Markdown", ["md"]),
    ("reStructuredText", ["rst"]),
    ("Text", ["txt"]),
    ("make", ["mk", "mak"]),
    ("CMake", ["cmake"]),
    ("Dockerfile", ["dockerfile"]),
    ("Gradle", ["gradle"]),
    ("CSV", ["csv"]),
    ("TSV", ["tsv"]),
    ("SQL", ["sql"]),
    ("TeX", ["tex", "sty"]),
    ("BibTeX", ["bib"]),
    ("R", ["r"]),
    ("Dart", ["dart"]),
    ("Elm", ["elm"]),
    ("Lisp", ["cl", "lisp"]),
    ("Scheme", ["scm", "ss"]),
    ("Lua", ["lua"]),
    ("Tcl", ["tcl"]),
    ("Verilog", ["v"]),
    ("VHDL", ["vhdl"]),
    ("CoffeeScript", ["coffee", "litcoffee"]),
    ("LiveScript", ["ls"]),
    ("IcedCoffeeScript", ["iced"]) ]

/-- The language of a whole file name in lower case. -/
def languageOfName? (name : Text) : Option String :=
  match wholeNames.languageOf? (String.ofList name) with
  | some language => some language
  | none => if "dockerfile".toList.isPrefixOf name then some "Dockerfile" else none

/-- The language of an extension in lower case. -/
def languageOfExtension? (ending : Text) : Option String :=
  extensions.languageOf? (String.ofList ending)

/-- The language of a path by its file name.  A name that is no text has none, and
neither has a file name with an extension that is no text. -/
def languageOfPath? (path : Path) : Option String := do
  let name ← path.fileName?.bind Utf8.decode?
  match languageOfName? (Text.lower name) with
  | some language => some language
  | none =>
      let ending ← path.extension?.bind Utf8.decode?
      languageOfExtension? (Text.lower ending)

end FileName

/-! ## Interpreters

A first line that starts with `#!` names the program that runs the file.  Where
the program lies and which version it is do not matter; `env` stands for the
program that it is told to start. -/

namespace Shebang

/-- The languages and the names of their interpreters. -/
def interpreters : Listing :=
  [ ("Python", ["python", "pypy"]),
    ("Perl", ["perl"]),
    ("Ruby", ["ruby"]),
    ("Bourne Again Shell", ["sh", "bash", "dash", "ash"]),
    ("Zsh", ["zsh"]),
    ("Korn Shell", ["ksh"]),
    ("C Shell", ["csh", "tcsh"]),
    ("Fish Shell", ["fish"]),
    ("JavaScript", ["node", "nodejs"]),
    ("PHP", ["php"]),
    ("Lua", ["lua"]),
    ("R", ["rscript", "Rscript"]),
    ("Julia", ["julia"]),
    ("Elixir", ["elixir"]),
    ("Tcl", ["tclsh", "wish"]) ]

/-- What comes after the last slash. -/
def baseName (command : Text) : Text :=
  (command.reverse.takeWhile (· ≠ '/')).reverse

/-- Without the version at the end. -/
def dropVersion (name : Text) : Text :=
  Text.dropEndWhile (fun c => c.isDigit || c = '.') name

/-- The interpreter that the words of a command start.  The options of `env` are
skipped. -/
def interpreterOf? : List Text → Option Text
  | [] => none
  | first :: arguments =>
      if baseName first = "env".toList then
        (arguments.find? fun word => word.head? ≠ some '-').map baseName
      else some (baseName first)

/-- The language of an interpreter. -/
def languageOfInterpreter? (name : Text) : Option String :=
  interpreters.languageOf? (String.ofList (dropVersion name))

/-- The language that the first line of a file names. -/
def languageOfLine? : Text → Option String
  | '#' :: '!' :: command =>
      (interpreterOf? (Text.words (Text.trim command))).bind languageOfInterpreter?
  | _ => none

end Shebang

/-! ## Both together -/

/-- How many bytes are inspected for a sign of binary content. -/
def binaryWindow : Nat := 1024

/-- A zero byte near the start marks a file as binary. -/
def isBinary (content : Bytes) : Bool :=
  (content.take binaryWindow).contains 0

/-- The first line of a file, without carriage returns at its end. -/
def firstLine (content : Bytes) : Text :=
  Text.dropEndWhile (· = '\r') (Utf8.decode (content.takeWhile (· ≠ lineFeed)))

/-- The language of a file. -/
def detectLanguage? (path : Path) (content : Bytes) : Option String :=
  match FileName.languageOfPath? path with
  | some language => some language
  | none => Shebang.languageOfLine? (firstLine content)

end LineTally
