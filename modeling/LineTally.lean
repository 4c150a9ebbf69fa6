import LineTally.Text.Basic
import LineTally.Text.Utf8
import LineTally.Text.Control
import LineTally.Text.Lines
import LineTally.Language.Detection
import LineTally.Language.Opener
import LineTally.Language.Table
import LineTally.Line.Basic
import LineTally.Line.Numbering
import LineTally.Line.Classification
import LineTally.Path.Order
import LineTally.Glob.Matching
import LineTally.Tally.Basic
import LineTally.Decimal.Fixed
import LineTally.Timing
import LineTally.FileSystem.Basic
import LineTally.Discovery.Basic
import LineTally.Counting.Basic
import LineTally.CommandLine.Program
import LineTally.Main
import LineTally.Proofs.Language.CharLiteral
import LineTally.Proofs.Language.Opener
import LineTally.Proofs.Line.Lexeme
import LineTally.Proofs.Line.EachLine
import LineTally.Proofs.Line.Observation
import LineTally.Proofs.Line.Invariant
import LineTally.Proofs.Line.Splitting
import LineTally.Proofs.Line.Inventory
import LineTally.Proofs.Line.Marking
import LineTally.Proofs.Line.Description
import LineTally.Proofs.Line.TwoPass
import LineTally.Proofs.Line.Revision
import LineTally.Proofs.Text.PhysicalLines
import LineTally.Proofs.Tally.Entries
import LineTally.Proofs.Counting.Conservation
import LineTally.Proofs.Tally.Merge
import LineTally.Proofs.Counting.Schedule
import LineTally.Proofs.Language.Visible
import LineTally.Proofs.Line.Place
import LineTally.Proofs.Line.Region
import LineTally.Proofs.Line.Trimming
import LineTally.Proofs.Line.OpenRegion
import LineTally.Proofs.Path.Joining
import LineTally.Proofs.Discovery.Sought
import LineTally.Proofs.Line.Termination
import LineTally.Proofs.Line.Consistency
import LineTally.Proofs.Language.Precedence
import LineTally.Proofs.Language.LiteralWidth
import LineTally.Proofs.Language.Rearrangement
import LineTally.Proofs.Line.Rearrangement
import LineTally.Proofs.Report.CsvReader
import LineTally.Proofs.Report.CsvRows
import LineTally.Proofs.Text.Utf8Order
import LineTally.Proofs.Report.Agreement
import LineTally.Proofs.Report.FileOrder
import LineTally.Proofs.Report.CsvRecords
import LineTally.Proofs.Text.Words
import LineTally.Proofs.Lists
import LineTally.Proofs.Language.Listing
import LineTally.Proofs.Language.Interpreter
import LineTally.Proofs.Text.LowerCase
import LineTally.Proofs.Report.ColumnSums
import LineTally.Proofs.Report.TableReader
import LineTally.Proofs.Report.JsonValue
import LineTally.Proofs.Report.JsonReader
import LineTally.Proofs.Report.JsonAgreement
import LineTally.Proofs.Text.Decimal
import LineTally.Proofs.Path.Sorting
import LineTally.Proofs.Path.ComponentOrder
import LineTally.Proofs.Path.FirstSpelling
import LineTally.Proofs.FileSystem.Location
import LineTally.Proofs.FileSystem.Pruning
import LineTally.Proofs.Discovery.Subject
import LineTally.Proofs.Discovery.Listing
import LineTally.Proofs.Discovery.Overlap
import LineTally.Proofs.Discovery.Depth
import LineTally.Proofs.Discovery.Pruning
import LineTally.Proofs.Discovery.Warnings
import LineTally.Proofs.Discovery.Hidden
import LineTally.Proofs.Discovery.Unlisted
import LineTally.Proofs.Failures
import LineTally.Proofs.CommandLine.Failing
import LineTally.Proofs.Line.Closing
import LineTally.Proofs.Line.FlatComment
import LineTally.Proofs.Line.Nesting
import LineTally.Proofs.Line.BlankLine
import LineTally.Proofs.Text.Utf8Spelling
import LineTally.Proofs.Text.LossyDecoding
import LineTally.Proofs.Text.DecodedLines
import LineTally.Proofs.Text.LineEnd
import LineTally.Proofs.Text.LineReader
import LineTally.Proofs.Language.Naming
import LineTally.Proofs.Counting.Outcome
import LineTally.Proofs.Language.CheckedWidth
import LineTally.Proofs.Line.Boundary
