import LineTally.Language.Profile

/-!
# The languages

The profile of every known language, and the delimiters that several languages
share.  `Profile.lookup` finds a language by its exact name.
-/

namespace LineTally

namespace Delimiters

/-- A block comment in which the opener means nothing. -/
def block (opener closer : String) : BlockComment :=
  { opener := opener.toList, closer := closer.toList }

/-- A block comment that nests. -/
def nested (opener closer : String) : BlockComment :=
  { opener := opener.toList, closer := closer.toList, nestable := true }

/-- A string literal in which a backslash escapes. -/
def escaped (delimiter : String) : Quote :=
  { delimiter := delimiter.toList, escape := some '\\' }

/-- A string literal without escapes. -/
def raw (delimiter : String) : Quote :=
  { delimiter := delimiter.toList }

/-- A string literal that may serve as documentation. -/
def docstring (delimiter : String) : Quote :=
  { delimiter := delimiter.toList, escape := some '\\', doc := true }

/-! ## Line markers -/

def slashes : List Text := ["//".toList]
def hash : List Text := ["#".toList]
def dashes : List Text := ["--".toList]
def semicolon : List Text := [";".toList]
def percent : List Text := ["%".toList]

/-! ## Block comments -/

def slashStar : List BlockComment := [block "/*" "*/"]
def slashStarNested : List BlockComment := [nested "/*" "*/"]
def markup : List BlockComment := [block "<!--" "-->"]
def parenStar : List BlockComment := [nested "(*" "*)"]
def braceDash : List BlockComment := [nested "\x7b-" "-\x7d"]
def hashBar : List BlockComment := [nested "#|" "|#"]

/-! ## String literals -/

def double : List Quote := [escaped "\""]
def doubleRaw : List Quote := [raw "\""]
def doubleSingle : List Quote := [escaped "\"", escaped "'"]
def doubleSingleTemplate : List Quote := [escaped "\"", escaped "'", escaped "`"]
def doubleSingleRaw : List Quote := [escaped "\"", escaped "'", raw "`"]
def doubleSingleShell : List Quote := [escaped "\"", raw "'"]
def singleDoubleRaw : List Quote := [raw "'", raw "\""]
def tripleDouble : List Quote := [escaped "\"\"\"", escaped "\""]
def textBlock : List Quote := [escaped "\"\"\"", escaped "\"", escaped "'"]
def tripleBoth : List Quote := [escaped "\"\"\"", escaped "'''", escaped "\"", escaped "'"]
def docstrings : List Quote := [docstring "\"\"\"", docstring "'''", escaped "\"", escaped "'"]
def literalStrings : List Quote := [escaped "\"\"\"", raw "'''", escaped "\"", raw "'"]

end Delimiters

namespace Profile

open Delimiters

/-- Every known language, in order of its name. -/
def all : List Profile :=
  [
    { name := "Ada", lineComments := dashes, quotes := doubleRaw },
    { name := "Assembly", lineComments := semicolon, quotes := double },
    { name := "BibTeX", lineComments := percent },
    { name := "Bourne Again Shell", lineComments := hash, quotes := doubleSingleShell },
    { name := "C", lineComments := slashes, blockComments := slashStar, quotes := doubleSingle },
    { name := "C Shell", lineComments := hash, quotes := doubleSingleShell },
    { name := "C#", lineComments := slashes, blockComments := slashStar, quotes := doubleSingle },
    { name := "C++", lineComments := slashes, blockComments := slashStar, quotes := doubleSingle },
    { name := "C/C++ Header", lineComments := slashes, blockComments := slashStar,
      quotes := doubleSingle },
    { name := "CMake", lineComments := hash, blockComments := [block "#[[" "]]"],
      quotes := double },
    { name := "CSS", blockComments := slashStar, quotes := doubleSingle },
    { name := "CSV" },
    { name := "Clojure", lineComments := semicolon, quotes := double },
    { name := "CoffeeScript", lineComments := hash, blockComments := [block "###" "###"],
      quotes := tripleBoth },
    { name := "Cython", lineComments := hash, quotes := docstrings },
    { name := "Dart", lineComments := slashes, blockComments := slashStarNested,
      quotes := tripleBoth },
    { name := "Dockerfile", lineComments := hash },
    { name := "Elixir", lineComments := hash, quotes := tripleDouble },
    { name := "Elm", lineComments := dashes, blockComments := braceDash, quotes := tripleDouble },
    { name := "F#", lineComments := slashes, blockComments := parenStar, quotes := tripleDouble },
    { name := "Fish Shell", lineComments := hash, quotes := doubleSingleShell },
    { name := "Fortran 77", lineComments := ["!".toList], quotes := singleDoubleRaw,
      columnOneComments := ["C".toList, "c".toList, "*".toList] },
    { name := "Fortran 90", lineComments := ["!".toList], quotes := singleDoubleRaw },
    { name := "Fortran 95", lineComments := ["!".toList], quotes := singleDoubleRaw },
    { name := "Go", lineComments := slashes, blockComments := slashStar,
      quotes := doubleSingleRaw },
    { name := "Gradle", lineComments := slashes, blockComments := slashStar,
      quotes := tripleBoth },
    { name := "HTML", blockComments := markup },
    { name := "Haskell", lineComments := dashes, blockComments := braceDash, quotes := double },
    { name := "INI", lineComments := [";".toList, "#".toList] },
    { name := "IcedCoffeeScript", lineComments := hash, blockComments := [block "###" "###"],
      quotes := tripleBoth },
    { name := "JSON", lineComments := slashes, blockComments := slashStar, quotes := double },
    { name := "JSP", blockComments := [block "<%--" "--%>", block "<!--" "-->"] },
    { name := "JSX", lineComments := slashes, blockComments := slashStar,
      quotes := doubleSingleTemplate },
    { name := "Java", lineComments := slashes, blockComments := slashStar, quotes := textBlock },
    { name := "JavaScript", lineComments := slashes, blockComments := slashStar,
      quotes := doubleSingleTemplate },
    { name := "Julia", lineComments := hash, blockComments := [nested "#=" "=#"],
      quotes := tripleDouble },
    { name := "Korn Shell", lineComments := hash, quotes := doubleSingleShell },
    { name := "Kotlin", lineComments := slashes, blockComments := slashStarNested,
      quotes := textBlock },
    { name := "Lisp", lineComments := semicolon, blockComments := hashBar, quotes := double },
    { name := "LiveScript", lineComments := hash, blockComments := slashStar,
      quotes := tripleBoth },
    { name := "Lua", lineComments := dashes, blockComments := [block "--[[" "]]"],
      quotes := doubleSingle },
    { name := "Markdown", blockComments := markup },
    { name := "Maven", blockComments := markup },
    { name := "OCaml", blockComments := parenStar, quotes := double },
    { name := "PHP", lineComments := ["//".toList, "#".toList], blockComments := slashStar,
      quotes := doubleSingle },
    { name := "Pascal", lineComments := slashes,
      blockComments := [block "\x7b" "\x7d", block "(*" "*)"], quotes := [raw "'"] },
    { name := "Perl", lineComments := hash, quotes := doubleSingle },
    { name := "Python", lineComments := hash, quotes := docstrings },
    { name := "R", lineComments := hash, quotes := doubleSingle },
    { name := "Ruby", lineComments := hash, quotes := doubleSingle },
    { name := "Rust", lineComments := slashes, blockComments := slashStarNested,
      quotes := double, charLiteral := some '\'' },
    { name := "SQL", lineComments := dashes, blockComments := slashStar,
      quotes := singleDoubleRaw },
    { name := "SVG", blockComments := markup },
    { name := "Scala", lineComments := slashes, blockComments := slashStarNested,
      quotes := tripleDouble },
    { name := "Scheme", lineComments := semicolon, blockComments := hashBar, quotes := double },
    { name := "Swift", lineComments := slashes, blockComments := slashStarNested,
      quotes := tripleDouble },
    { name := "TOML", lineComments := hash, quotes := literalStrings },
    { name := "TSV" },
    { name := "TeX", lineComments := percent },
    { name := "Tcl", lineComments := hash, quotes := double },
    { name := "Text" },
    { name := "TypeScript", lineComments := slashes, blockComments := slashStar,
      quotes := doubleSingleTemplate },
    { name := "VHDL", lineComments := dashes, quotes := doubleRaw },
    { name := "Verilog", lineComments := slashes, blockComments := slashStar, quotes := double },
    { name := "Visual Basic", lineComments := ["'".toList], quotes := doubleRaw },
    { name := "XHTML", blockComments := markup },
    { name := "XML", blockComments := markup },
    { name := "YAML", lineComments := hash, quotes := double },
    { name := "Zsh", lineComments := hash, quotes := doubleSingleShell },
    { name := "make", lineComments := hash },
    { name := "reStructuredText", columnOneComments := ["..".toList] } ]

/-- The profile of the language with this exact name. -/
def lookup (name : String) : Option Profile :=
  all.find? (·.name = name)

end Profile

end LineTally
