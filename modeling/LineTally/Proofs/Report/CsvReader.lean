import LineTally.Report.Csv

/-!
# Reading comma-separated records

The reader takes a text apart character by character and knows nothing of how it was
written.  A field that starts with a double quote goes on to the double quote that closes
it, two double quotes in it stand for one, and a comma or a line feed between two double
quotes is a character like any other; everywhere else a comma ends the field and a line
feed ends the record.  A carriage return is a character like any other everywhere.  Records
that were written line by line are read as they were (`read_flatMap_line`): no text can break
out of its field.
-/

namespace LineTally.Report.Csv

/-- Where the reader stands between two characters. -/
inductive Position where
  /-- A field starts here. -/
  | start
  /-- In a field without quotes. -/
  | plain
  /-- Between the quotes of a field. -/
  | quoted
  /-- Behind a double quote in a quoted field: either the field ends here, or the quote is
  the first of two. -/
  | closed
deriving DecidableEq, Repr

/-- What the reader has read so far. -/
structure Reader where
  position : Position := .start
  /-- The field that is being read. -/
  field : Text := []
  /-- The fields before it in its record. -/
  record : List Text := []
  /-- The records before that. -/
  records : List (List Text) := []
deriving DecidableEq, Repr

namespace Reader

/-- The field goes on with a character. -/
def put (reader : Reader) (position : Position) (c : Char) : Reader :=
  { reader with position := position, field := reader.field ++ [c] }

/-- The field is complete. -/
def endField (reader : Reader) : Reader :=
  { record := reader.record ++ [reader.field], records := reader.records }

/-- The field is complete, and it is the last of its record. -/
def endRecord (reader : Reader) : Reader :=
  { records := reader.records ++ [reader.record ++ [reader.field]] }

/-- The effect of one character; only a comma, a line feed or a second double quote can
stand behind the double quote that closes a field. -/
def next (reader : Reader) (c : Char) : Option Reader :=
  match reader.position with
  | .quoted =>
      some (if c = '"' then { reader with position := .closed } else reader.put .quoted c)
  | position =>
      if c = ',' then some reader.endField
      else if c = '\n' then some reader.endRecord
      else
        match position with
        | .start =>
            some (if c = '"' then { reader with position := .quoted } else reader.put .plain c)
        | .closed => if c = '"' then some (reader.put .quoted c) else none
        | _ => some (reader.put .plain c)

/-- The effect of a text. -/
def feed (reader : Reader) (text : Text) : Option Reader :=
  text.foldlM next reader

/-- The records when the text ends.  A last record need not end in a line feed, but a
quoted field has to be closed. -/
def finish (reader : Reader) : Option (List (List Text)) :=
  match reader.position with
  | .quoted => none
  | .start =>
      some (if reader.record = [] then reader.records else reader.endRecord.records)
  | _ => some reader.endRecord.records

end Reader

/-- The records of a text. -/
def read (text : Text) : Option (List (List Text)) :=
  (({} : Reader).feed text).bind Reader.finish

/-! ## Fields -/

namespace Reader

@[simp]
theorem feed_nil (reader : Reader) : reader.feed [] = some reader :=
  rfl

@[simp]
theorem feed_cons (reader : Reader) (c : Char) (rest : Text) :
    reader.feed (c :: rest) = (reader.next c).bind (·.feed rest) :=
  rfl

theorem feed_append (reader : Reader) (first second : Text) :
    reader.feed (first ++ second) = (reader.feed first).bind (·.feed second) :=
  List.foldlM_append

variable {reader : Reader}

/-- Between quotes every text is read back from its doubled form. -/
theorem feed_doubleQuotes (quoted : reader.position = .quoted) (text : Text) :
    reader.feed (doubleQuotes text) = some { reader with field := reader.field ++ text } := by
  induction text generalizing reader with
  | nil => simp [doubleQuotes]
  | cons c rest inductionHypothesis =>
      have put : (reader.put .quoted c).feed (doubleQuotes rest) =
          some { reader with field := reader.field ++ c :: rest } := by
        rw [inductionHypothesis rfl]
        simp [Reader.put, quoted]
      have next : reader.feed (if c = '"' then ['"', '"'] else [c]) =
          some (reader.put .quoted c) := by
        by_cases quote : c = '"'
        · subst quote
          simp [Reader.next, quoted, Reader.put]
        · simp [Reader.next, quoted, quote]
      rw [doubleQuotes, List.flatMap_cons, feed_append, next]
      exact put

/-- A text without commas, double quotes and line feeds is read as it stands. -/
theorem feed_plain (unquoted : reader.position = .start ∨ reader.position = .plain)
    {text : Text} (plain : ∀ c ∈ text, needsQuotes c = false) :
    ∃ position, position ≠ .quoted ∧
      reader.feed text =
        some { reader with position := position, field := reader.field ++ text } := by
  induction text generalizing reader with
  | nil =>
      -- Nothing shows that an empty field has been read: the reader may still be at its start.
      refine ⟨reader.position, ?_, by simp⟩
      rcases unquoted with start | plain <;> simp [*]
  | cons c rest inductionHypothesis =>
      have ordinary := plain c List.mem_cons_self
      simp only [needsQuotes, Bool.or_eq_false_iff, decide_eq_false_iff_not] at ordinary
      have next : reader.next c = some (reader.put .plain c) := by
        rcases unquoted with start | plain <;> simp [Reader.next, *]
      have onward : (reader.put .plain c).position = .start ∨
          (reader.put .plain c).position = .plain := .inr rfl
      obtain ⟨position, outside, read⟩ := inductionHypothesis onward fun c member =>
        plain c (List.mem_cons_of_mem _ member)
      refine ⟨position, outside, ?_⟩
      rw [feed_cons, next, Option.bind_some, read]
      simp [Reader.put]

/-- A field is read back, whatever its text; behind it the reader is not between quotes. -/
theorem feed_field (record : List Text) (records : List (List Text)) (text : Text) :
    ∃ position, position ≠ .quoted ∧
      ({ record := record, records := records } : Reader).feed (Csv.field text) =
        some { position := position, field := text, record := record, records := records } := by
  let start : Reader := { record := record, records := records }
  unfold Csv.field
  split
  · refine ⟨.closed, by simp, ?_⟩
    have opened : start.next '"' = some { start with position := .quoted } := by
      simp [Reader.next, start]
    rw [List.cons_append, feed_cons, opened, Option.bind_some, feed_append,
      feed_doubleQuotes rfl]
    simp [Reader.next, start]
  · next unquoted =>
      have plain : ∀ c ∈ text, needsQuotes c = false := by simpa using unquoted
      have startsField : start.position = .start ∨ start.position = .plain := .inl rfl
      simpa [start] using feed_plain startsField plain

/-- Outside of quotes a comma ends the field. -/
theorem next_comma (outside : reader.position ≠ .quoted) :
    reader.next ',' = some reader.endField := by
  unfold Reader.next
  split <;> simp_all

/-- Outside of quotes a line feed ends the record. -/
theorem next_lineFeed (outside : reader.position ≠ .quoted) :
    reader.next '\n' = some reader.endRecord := by
  unfold Reader.next
  split <;> simp_all

end Reader

/-! ## Records -/

namespace Reader

/-- A line of written fields is read as the record of their texts. -/
theorem feed_line {fields : List Text} (nonempty : fields ≠ []) (record : List Text)
    (records : List (List Text)) :
    ({ record := record, records := records } : Reader).feed (line (fields.map Csv.field)) =
      some { records := records ++ [record ++ fields] } := by
  induction fields generalizing record with
  | nil => exact absurd rfl nonempty
  | cons text rest inductionHypothesis =>
      obtain ⟨position, outside, read⟩ := feed_field record records text
      cases rest with
      | nil =>
          rw [List.map_singleton, line, List.intercalate_singleton, feed_append, read,
            Option.bind_some, feed_cons, next_lineFeed outside]
          rfl
      | cons second rest =>
          have split : line ((text :: second :: rest).map Csv.field) =
              Csv.field text ++ ',' :: line ((second :: rest).map Csv.field) := by
            simp only [line, List.map_cons, List.intercalate_cons_cons, List.append_assoc,
              List.cons_append, List.nil_append]
          have onward := inductionHypothesis (List.cons_ne_nil _ _) (record ++ [text])
          rw [List.append_assoc] at onward
          rw [split, feed_append, read, Option.bind_some, feed_cons, next_comma outside]
          exact onward

theorem feed_flatMap_line {rows : List (List Text)} (nonempty : ∀ row ∈ rows, row ≠ [])
    (records : List (List Text)) :
    ({ records := records } : Reader).feed
        (rows.flatMap fun row => line (row.map Csv.field)) =
      some { records := records ++ rows } := by
  induction rows generalizing records with
  | nil => simp
  | cons row rest inductionHypothesis =>
      rw [List.flatMap_cons, feed_append, feed_line (nonempty row List.mem_cons_self) [] records,
        Option.bind_some, List.nil_append,
        inductionHypothesis fun row member => nonempty row (List.mem_cons_of_mem _ member)]
      simp

end Reader

/-- Records are read as they were written. -/
theorem read_flatMap_line {rows : List (List Text)} (nonempty : ∀ row ∈ rows, row ≠ []) :
    read (rows.flatMap fun row => line (row.map field)) = some rows := by
  rw [read, Reader.feed_flatMap_line nonempty []]
  rfl

end LineTally.Report.Csv
