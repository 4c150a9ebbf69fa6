import Mathlib.Data.List.DropRight
import LineTally.Proofs.Text.PhysicalLines

/-!
# Reading lines from a source that may fail

The failures of a source divide what it delivers into stretches.  However the bytes of a
stretch are cut into chunks, and however often a request is interrupted, the reader yields
its complete lines, and the last stretch to its end; each failure stands between two
stretches and costs the unfinished line before it (`items_of_deliveries`).

`Reads` says what a single read takes from the stretches that are left
(`reads_readUntil`), and `itemsOf` what a reader yields for them.
-/

namespace LineTally.LineReader

/-- The bytes that are delivered up to each failure, and behind the last. -/
def stretches (deliveries : List Delivery) : List Bytes :=
  (deliveries.splitOnP (· = .failure)).map (List.flatMap Delivery.bytes)

/-- The bytes up to the last line feed. -/
def completeLines (bytes : Bytes) : Bytes :=
  bytes.rdropWhile (· ≠ lineFeed)

theorem completeLines_append_cons (first rest : Bytes) :
    completeLines (first ++ lineFeed :: rest) = first ++ lineFeed :: completeLines rest := by
  simp only [completeLines, List.rdropWhile, List.reverse_append, List.reverse_cons,
    List.append_assoc, List.singleton_append, List.dropWhile_append]
  -- If `rest` has no line feed, all of it goes, up to the one before it.
  split
  · next none => rw [List.isEmpty_iff.mp none]; simp
  · simp

theorem completeLines_eq_nil {bytes : Bytes} (unbroken : lineFeed ∉ bytes) :
    completeLines bytes = [] :=
  List.rdropWhile_eq_nil_iff.mpr fun _ mem => decide_eq_true fun same => unbroken (same ▸ mem)

/-! ## Stretches -/

theorem stretches_ne_nil (deliveries : List Delivery) : stretches deliveries ≠ [] :=
  List.map_eq_nil_iff.not.mpr (List.splitOnP_ne_nil _ deliveries)

@[simp]
theorem stretches_nil : stretches [] = [[]] :=
  rfl

@[simp]
theorem stretches_failure_cons (deliveries : List Delivery) :
    stretches (.failure :: deliveries) = [] :: stretches deliveries :=
  rfl

theorem stretches_cons {delivery : Delivery} (delivers : delivery ≠ .failure)
    (deliveries : List Delivery) :
    stretches (delivery :: deliveries) =
      (stretches deliveries).modifyHead (delivery.bytes ++ ·) := by
  have cut : (delivery :: deliveries).splitOnP (· = .failure) =
      (deliveries.splitOnP (· = .failure)).modifyHead (delivery :: ·) := by
    rw [List.splitOnP_cons_eq_if_modifyHead, if_neg (by simpa using delivers)]
  rw [stretches, cut, stretches]
  cases deliveries.splitOnP (· = .failure) with
  | nil => rfl
  | cons first others => rfl

theorem stretches_of_not_mem {deliveries : List Delivery} (delivers : .failure ∉ deliveries) :
    stretches deliveries = [deliveries.flatMap Delivery.bytes] := by
  have whole : ∀ delivery ∈ deliveries, decide (delivery = .failure) = false :=
    fun delivery mem => decide_eq_false fun same => delivers (same ▸ mem)
  rw [stretches, List.splitOnP_eq_singleton whole, List.map_singleton]

/-- The stretches that a source has left; the first begins with what is buffered. -/
def Source.stretches (source : Source) : List Bytes :=
  (LineReader.stretches source.deliveries).modifyHead (source.buffer ++ ·)

/-! ## One read -/

/-- What is read onto `line` from the stretches that are left, and what is left then. -/
inductive Reads (line : Bytes) : List Bytes → Option Bytes → List Bytes → Prop where
  | ended {first more : Bytes} {others : List Bytes} : lineFeed ∉ first →
      Reads line ((first ++ lineFeed :: more) :: others) (some (line ++ first ++ [lineFeed]))
        (more :: others)
  | endOfInput {last : Bytes} : lineFeed ∉ last → Reads line [last] (some (line ++ last)) [[]]
  | failure {lost next : Bytes} {others : List Bytes} : lineFeed ∉ lost →
      Reads line (lost :: next :: others) none (next :: others)

/-- Bytes without a line feed are read onto the line. -/
theorem Reads.onto {line buffer : Bytes} {before after : List Bytes} {result : Option Bytes}
    (unbroken : lineFeed ∉ buffer) (reads : Reads (line ++ buffer) before result after) :
    Reads line (before.modifyHead (buffer ++ ·)) result after := by
  have longer {bytes : Bytes} (other : lineFeed ∉ bytes) : lineFeed ∉ buffer ++ bytes :=
    List.not_mem_append unbroken other
  cases reads with
  | ended first =>
      rw [List.modifyHead_cons, ← List.append_assoc, List.append_assoc line]
      exact .ended (longer first)
  | endOfInput last =>
      rw [List.modifyHead_cons, List.append_assoc]
      exact .endOfInput (longer last)
  | failure lost =>
      rw [List.modifyHead_cons]
      exact .failure (longer lost)

theorem lineFeed_not_mem_of_dropWhile {buffer : Bytes}
    (goesOn : buffer.dropWhile (· ≠ lineFeed) = []) : lineFeed ∉ buffer := by
  intro mem
  have := List.dropWhile_eq_nil_iff.mp goesOn lineFeed mem
  contradiction

theorem eq_append_of_dropWhile {buffer rest : Bytes} {ending : UInt8}
    (ends : buffer.dropWhile (· ≠ lineFeed) = ending :: rest) :
    ending = lineFeed ∧ lineFeed ∉ buffer.takeWhile (· ≠ lineFeed) ∧
      buffer = buffer.takeWhile (· ≠ lineFeed) ++ ending :: rest := by
  refine ⟨?_, fun mem => ?_, ?_⟩
  · have stops := List.head?_dropWhile_not (· ≠ lineFeed) buffer
    rw [ends] at stops
    simpa using stops
  · have := List.mem_takeWhile_imp mem
    contradiction
  · rw [← ends, List.takeWhile_append_dropWhile]

/-- One read takes what it should, whatever the chunks. -/
theorem reads_readUntil (line buffer : Bytes) (deliveries : List Delivery) :
    Reads line (Source.stretches ⟨buffer, deliveries⟩) (readUntil line buffer deliveries).1
      (readUntil line buffer deliveries).2.stretches := by
  fun_induction readUntil line buffer deliveries with
  | case1 deliveries line buffer ending rest ends =>
      obtain ⟨rfl, unbroken, cut⟩ := eq_append_of_dropWhile ends
      obtain ⟨first, others, left⟩ := List.exists_cons_of_ne_nil (stretches_ne_nil deliveries)
      -- `cut` shall rewrite the buffer, but not the part of it that is taken.
      generalize buffer.takeWhile (· ≠ lineFeed) = before at *
      rw [Source.stretches, Source.stretches, left, List.modifyHead_cons, List.modifyHead_cons, cut,
        List.append_assoc]
      exact .ended unbroken
  | case2 line buffer goesOn =>
      rw [Source.stretches, stretches_nil, List.modifyHead_cons, List.append_nil]
      exact .endOfInput (lineFeed_not_mem_of_dropWhile goesOn)
  | case3 line buffer goesOn first others rest inductionHypothesis
  | case4 line buffer goesOn rest inductionHypothesis =>
      rw [Source.stretches, stretches_cons Delivery.noConfusion]
      exact inductionHypothesis.onto (lineFeed_not_mem_of_dropWhile goesOn)
  | case5 line buffer goesOn rest =>
      obtain ⟨next, others, left⟩ := List.exists_cons_of_ne_nil (stretches_ne_nil rest)
      rw [Source.stretches, Source.stretches, stretches_failure_cons, left, List.modifyHead_cons,
        List.modifyHead_cons, List.append_nil]
      exact .failure (lineFeed_not_mem_of_dropWhile goesOn)

/-! ## All reads -/

/-- The items of the lines in these bytes. -/
def lineItems (bytes : Bytes) : List Item :=
  (readLines bytes).map .line

/-- What is yielded for the stretches that are left. -/
def itemsOf : List Bytes → List Item
  | [] => []
  | [last] => lineItems last
  | lost :: next :: others => lineItems (completeLines lost) ++ .failure :: itemsOf (next :: others)

theorem lineItems_append_cons {first : Bytes} (unbroken : lineFeed ∉ first) (rest : Bytes) :
    lineItems (first ++ lineFeed :: rest) =
      .line (lineText (first ++ [lineFeed])) :: lineItems rest := by
  rw [lineItems, readLines_append_cons unbroken, List.map_cons, lineItems]

theorem itemsOf_append_cons {first : Bytes} (unbroken : lineFeed ∉ first) (more : Bytes)
    (others : List Bytes) :
    itemsOf ((first ++ lineFeed :: more) :: others) =
      .line (lineText (first ++ [lineFeed])) :: itemsOf (more :: others) := by
  cases others with
  | nil => exact lineItems_append_cons unbroken more
  | cons next others =>
      rw [itemsOf, itemsOf, completeLines_append_cons, lineItems_append_cons unbroken,
        List.cons_append]

/-- The next item is the first of those that are yielded for the stretches. -/
theorem itemsOf_stretches (source : Source) :
    itemsOf source.stretches =
      match source.next? with
      | none => []
      | some (item, rest) => item :: itemsOf rest.stretches := by
  have reads : Reads [] source.stretches _ _ :=
    reads_readUntil [] source.buffer source.deliveries
  rw [Source.next?]
  generalize readUntil [] source.buffer source.deliveries = read at reads
  obtain ⟨result, rest⟩ := read
  generalize source.stretches = before at reads
  generalize left : rest.stretches = after at reads
  cases reads with
  | @ended first more others unbroken =>
      have ne_nil : first ++ [lineFeed] ≠ [] := List.concat_ne_nil _ _
      simp only [List.nil_append, if_neg ne_nil, left, itemsOf_append_cons unbroken]
  | @endOfInput last unbroken =>
      -- Nothing is left to read, or one line that has no line feed.
      by_cases empty : last = []
      · simp only [List.nil_append, if_pos empty]
        rw [empty]
        rfl
      · simp only [List.nil_append, if_neg empty, left]
        rw [itemsOf, lineItems, readLines_of_not_mem empty unbroken]
        rfl
  | @failure lost next others unbroken =>
      simp only [left, itemsOf, completeLines_eq_nil unbroken]
      rfl

theorem itemsOnto_eq (done : List Item) (source : Source) :
    itemsOnto done source = done.reverse ++ itemsOf source.stretches := by
  fun_induction itemsOnto done source with
  | case1 done source last =>
      rw [itemsOf_stretches, last, List.append_nil]
  | case2 done source item rest next inductionHypothesis =>
      rw [inductionHypothesis, itemsOf_stretches source, next, List.reverse_cons, List.append_assoc]
      rfl

theorem items_eq_itemsOf (deliveries : List Delivery) :
    items deliveries = itemsOf (stretches deliveries) := by
  obtain ⟨first, others, cut⟩ := List.exists_cons_of_ne_nil (stretches_ne_nil deliveries)
  rw [items, itemsOnto_eq, Source.stretches, cut]
  rfl

theorem itemsOf_concat (lost : List Bytes) (last : Bytes) :
    itemsOf (lost ++ [last]) =
      lost.flatMap (fun bytes => lineItems (completeLines bytes) ++ [.failure]) ++
        lineItems last := by
  induction lost with
  | nil => rfl
  | cons bytes lost inductionHypothesis =>
      obtain ⟨next, others, behind⟩ := List.exists_cons_of_ne_nil (List.concat_ne_nil last lost)
      rw [behind] at inductionHypothesis
      rw [List.cons_append, behind, itemsOf, inductionHypothesis, List.flatMap_cons]
      simp only [List.append_assoc, List.cons_append, List.nil_append]

/-- A reader yields, for each stretch that ends in a failure, its complete lines and the failure,
and then all lines of the last stretch.  Without failures these are the lines of all that is
delivered. -/
theorem items_of_deliveries (deliveries : List Delivery) :
    (∃ lost last, stretches deliveries = lost ++ [last] ∧
      items deliveries =
        lost.flatMap (fun bytes => (readLines (completeLines bytes)).map .line ++ [.failure]) ++
          (readLines last).map .line) ∧
      (.failure ∉ deliveries →
        items deliveries = (readLines (deliveries.flatMap Delivery.bytes)).map .line) := by
  constructor
  · rcases List.eq_nil_or_concat' (stretches deliveries) with none | ⟨lost, last, cut⟩
    · exact absurd none (stretches_ne_nil deliveries)
    · refine ⟨lost, last, cut, ?_⟩
      rw [items_eq_itemsOf, cut, itemsOf_concat]
      rfl
  · intro delivers
    rw [items_eq_itemsOf, stretches_of_not_mem delivers]
    rfl

/-- A chunk ends inside a character, and another between a carriage return and a line feed. -/
theorem items_of_broken_chunks :
    Delivery.failure ∉ [.chunk 0xC3 [], .interrupted, .chunk 0xA9 [0x0D], .chunk 0x0A [0x62]] ∧
      items [.chunk 0xC3 [], .interrupted, .chunk 0xA9 [0x0D], .chunk 0x0A [0x62]] =
        [.line "é".toList, .line "b".toList] :=
  have delivers := by decide
  ⟨delivers, ((items_of_deliveries _).2 delivers).trans (by decide +kernel)⟩

end LineTally.LineReader
