import LineTally.Tally.Basic

/-!
# The JSON report

Objects and numbers, written over several lines with two blanks for each level.
An object without members is a pair of braces.
-/

namespace LineTally.Report

/-- A JSON value; of the kinds there are, the report needs two. -/
inductive Json where
  | number (n : Nat)
  | object (members : List (Text × Json))

namespace Json

/-- A hexadecimal digit in lower case. -/
def hexDigit (n : Nat) : Char :=
  Nat.digitChar (n % 16)

/-- One character of a string. -/
def escapeChar (c : Char) : Text :=
  if c = '"' then ['\\', '"']
  else if c = '\\' then ['\\', '\\']
  else if c = '\x08' then ['\\', 'b']
  else if c = '\x0c' then ['\\', 'f']
  else if c = '\n' then ['\\', 'n']
  else if c = '\r' then ['\\', 'r']
  else if c = '\t' then ['\\', 't']
  else if c.toNat < 0x20 then
    ['\\', 'u', '0', '0', hexDigit (c.toNat / 16), hexDigit c.toNat]
  else [c]

/-- A string with its quotes. -/
def quoted (text : Text) : Text :=
  '"' :: text.flatMap escapeChar ++ ['"']

/-- The start of a new line at this depth. -/
def newLine (depth : Nat) : Text :=
  '\n' :: List.replicate (2 * depth) ' '

mutual

/-- The value as text, on a line that is indented to this depth. -/
def write (depth : Nat) : Json → Text
  | .number n => Text.ofNat n
  | .object members =>
      match members with
      | [] => ['\x7b', '\x7d']
      | first :: rest =>
          '\x7b' :: writeMember (depth + 1) first ++ writeRest (depth + 1) rest ++
            newLine depth ++ ['\x7d']

/-- The members after the first. -/
def writeRest (depth : Nat) : List (Text × Json) → Text
  | [] => []
  | member :: rest => ',' :: writeMember depth member ++ writeRest depth rest

/-- One member on a line of its own. -/
def writeMember (depth : Nat) : Text × Json → Text
  | (name, value) => newLine depth ++ quoted name ++ ": ".toList ++ write depth value

end

/-- The numbers of a language. -/
def ofTotals (totals : Totals) : Json :=
  .object
    [("files".toList, .number totals.files.toNat),
      ("blank".toList, .number totals.blank.toNat),
      ("comment".toList, .number totals.comment.toNat),
      ("code".toList, .number totals.code.toNat)]

/-- All that a tally holds, and the totals of all languages together. -/
def ofTally (tally : Tally) : Json :=
  .object
    [("languages".toList,
        .object (tally.languages.map fun entry => (entry.1.toList, ofTotals entry.2))),
      ("total".toList, ofTotals tally.total),
      ("ignored".toList, .number tally.ignored.toNat),
      ("flagged".toList, .number tally.flagged.toNat)]

/-- The report. -/
def render (tally : Tally) : Text :=
  write 0 (ofTally tally) ++ ['\n']

end Json

end LineTally.Report
