import LineTally.Text.Utf8

/-!
# Lines

Physical lines end at a line feed.  Each is decoded by itself and loses every
line feed and carriage return at its end.

`LineReader.items` reads lines from a source that delivers its bytes in chunks and
may fail.  It goes on, item by item, up to the end of the input.
-/

namespace LineTally

/-- The byte that ends a physical line. -/
def lineFeed : UInt8 := 0x0A

/-- The physical lines, each with its line feed; the last may lack one.  A line
goes on as long as the byte before is no line feed. -/
def physicalLines (content : Bytes) : List Bytes :=
  content.splitBy fun before _ => before != lineFeed

/-- Without the line feeds and carriage returns at the end. -/
def Text.dropLineEnd (text : Text) : Text :=
  dropEndWhile (fun c => c = '\n' || c = '\r') text

/-- The text of one physical line. -/
def lineText (line : Bytes) : Text :=
  (Utf8.decode line).dropLineEnd

/-- The lines of a file. -/
def readLines (content : Bytes) : List Text :=
  (physicalLines content).map lineText

namespace LineReader

/-- What a source answers when it is asked for more bytes. -/
inductive Delivery where
  /-- One byte at least; a source that delivers none has come to its end. -/
  | chunk (first : UInt8) (others : Bytes)
  /-- The request was interrupted and is made again. -/
  | interrupted
  | failure
deriving DecidableEq, Repr

namespace Delivery

/-- The bytes that are delivered. -/
def bytes : Delivery → Bytes
  | chunk first others => first :: others
  | interrupted => []
  | failure => []

/-- What is in memory is delivered at once. -/
def ofMemory : Bytes → List Delivery
  | [] => []
  | first :: others => [chunk first others]

end Delivery

/-- What a reader of lines yields. -/
inductive Item where
  | line (text : Text)
  | failure
deriving DecidableEq, Repr

/-- A source that is read through a buffer. -/
structure Source where
  /-- Delivered and not read yet. -/
  buffer : Bytes := []
  /-- The answers to come.  Behind them the input ends. -/
  deliveries : List Delivery
deriving DecidableEq, Repr

/-- How much is left to read: all bytes, and one for each answer. -/
def Source.size (source : Source) : Nat :=
  source.buffer.length +
    source.deliveries.foldr (fun delivery left => delivery.bytes.length + 1 + left) 0

/-- Add to `line` what comes up to the next line feed, and the line feed, or all that is
left of the input.  The source is asked for more each time the buffer is used up; `none`
if it fails. -/
def readUntil (line buffer : Bytes) (deliveries : List Delivery) : Option Bytes × Source :=
  match buffer.dropWhile (· ≠ lineFeed) with
  | ending :: rest =>
      (some (line ++ buffer.takeWhile (· ≠ lineFeed) ++ [ending]), ⟨rest, deliveries⟩)
  | [] =>
      match deliveries with
      | [] => (some (line ++ buffer), ⟨[], []⟩)
      | .chunk first others :: rest => readUntil (line ++ buffer) (first :: others) rest
      | .interrupted :: rest => readUntil (line ++ buffer) [] rest
      | .failure :: rest => (none, ⟨[], rest⟩)

/-- The next item and what is left of the source; `none` at the end of the input.  Every
line is begun afresh, so a failure loses what was read of the line before it. -/
def Source.next? (source : Source) : Option (Item × Source) :=
  match readUntil [] source.buffer source.deliveries with
  | (none, rest) => some (.failure, rest)
  | (some line, rest) => if line = [] then none else some (.line (lineText line), rest)

theorem size_cons (buffer : Bytes) (delivery : Delivery) (deliveries : List Delivery) :
    Source.size ⟨buffer, delivery :: deliveries⟩ =
      buffer.length + (Source.size ⟨delivery.bytes, deliveries⟩ + 1) := by
  simp only [Source.size, List.foldr_cons]
  omega

/-- What is read is no longer left, and a failure is one answer. -/
theorem size_readUntil (line buffer : Bytes) (deliveries : List Delivery) :
    (readUntil line buffer deliveries).1.elim 1 List.length +
        (readUntil line buffer deliveries).2.size ≤
      line.length + Source.size ⟨buffer, deliveries⟩ := by
  fun_induction readUntil line buffer deliveries with
  | case1 deliveries line buffer ending rest ends =>
      have whole :
          (buffer.takeWhile (· ≠ lineFeed)).length + (rest.length + 1) = buffer.length := by
        rw [← List.length_cons, ← ends, ← List.length_append, List.takeWhile_append_dropWhile]
      simp only [Option.elim, Source.size, List.length_append, List.length_singleton]
      omega
  | case2 line buffer =>
      simp only [Option.elim, Source.size, List.length_append, List.length_nil]
      omega
  | case3 line buffer _ first others rest inductionHypothesis
  | case4 line buffer _ rest inductionHypothesis =>
      rw [size_cons, Delivery.bytes]
      rw [List.length_append] at inductionHypothesis
      omega
  | case5 line buffer _ rest =>
      rw [size_cons, Delivery.bytes]
      simp only [Option.elim]
      omega

/-- An item takes something from the source. -/
theorem Source.size_lt_of_next? {source rest : Source} {item : Item}
    (next : source.next? = some (item, rest)) : rest.size < source.size := by
  obtain ⟨buffer, deliveries⟩ := source
  have size := size_readUntil [] buffer deliveries
  rw [next?] at next
  split at next
  · next read =>
      obtain ⟨-, rfl⟩ := Prod.mk.inj (Option.some.inj next)
      simp only [read, Option.elim, List.length_nil] at size
      omega
  · next read =>
      split at next
      · contradiction
      · next ne_nil =>
          obtain ⟨-, rfl⟩ := Prod.mk.inj (Option.some.inj next)
          simp only [read, Option.elim, List.length_nil] at size
          have := List.length_pos_iff.mpr ne_nil
          omega

/-- The items that are left, behind those done, latest first. -/
def itemsOnto (done : List Item) (source : Source) : List Item :=
  match _ : source.next? with
  | none => done.reverse
  | some (item, rest) => itemsOnto (item :: done) rest
termination_by source.size
decreasing_by exact Source.size_lt_of_next? ‹_›

/-- All items up to the end of the input. -/
def items (deliveries : List Delivery) : List Item :=
  itemsOnto [] { deliveries }

end LineReader

end LineTally
