import LineTally.Proofs.Line.OpenRegion
import LineTally.Proofs.Line.Revision
import LineTally.Proofs.Line.TwoPass

/-!
# Lines that begin inside a block comment

A line that begins inside a block comment is a comment or code.  It is code only if the
comment ends on it and code follows there (`tag_of_line_in_block`).  What follows on other
lines makes no difference, unless it decides about a literal that is left open.
-/

namespace LineTally

variable {profile : Profile} {pair depth : Nat}

theorem Mode.not_mayDocument {mode : Mode} (notString : ∀ quote, mode ≠ .string quote) :
    ¬ mode.MayDocument profile := by
  rintro ⟨quote, _, inString, _⟩
  exact notString quote inString

/-- Lines that follow change no kinds unless a literal is open. -/
theorem getElem?_tags_append {lines : List Text} {n : Nat}
    (notString : ∀ quote, (Scanner.feedLines profile {} lines).mode ≠ .string quote)
    (below : n < lines.length) (after : List Text) :
    (classify profile (lines ++ after)).tags[n]? = (classify profile lines).tags[n]? := by
  rcases tags_append_or_revised profile lines after with ⟨rest, append⟩ | ⟨document, _⟩
  · rw [← append, List.getElem?_append_left]
    rwa [length_tags_classify]
  · exact absurd document (Mode.not_mayDocument notString)

/-- The lines of a block comment that is open where lines follow are comments. -/
theorem tag_in_open_block {lines : List Text} {n : Nat}
    (ended : (Scanner.feedLines profile {} lines).mode = .block pair depth)
    (behind : (Scanner.feedLines profile {} lines).regionLine < n) (below : n < lines.length)
    (after : List Text) : (classify profile (lines ++ after)).tags[n]? = some .comment := by
  have region : (Scanner.feedLines profile {} lines).mode.region? = some (.block pair) := by
    rw [ended]
    rfl
  rw [getElem?_tags_append (by simp [ended]) below]
  apply determinesKinds_of_open profile lines region n behind
  rwa [length_tags_classify]

/-- The kind of a line is the one that the second pass tells. -/
theorem getElem?_tags_eq_kind {lines : List Text} {n : Nat} (below : n < lines.length) :
    (classify profile lines).tags[n]? =
      some ((Inventory.ofLines profile lines).kind profile n) := by
  have told := Marks.eachLine_of_forall (Scanner.isTold_feedLines profile lines)
  have each := (Scanner.agrees_feedLines profile lines).lines.and told
  rw [← length_tags_classify profile lines] at below
  obtain ⟨marks, tagged, describes, isTold⟩ := exists_marks_of_lt profile lines each below
  rw [tagged, describes.kind_eq isTold]

/-- Where the lexeme is met there may be code; a string literal is code unless it is
documentation. -/
def Lexeme.mayBeCode : Lexeme → Bool
  | .plain c => !LineTally.isBlank c
  | .charLiteral => true
  | .quoteOpener _ => true
  | _ => false

/-- Only an opener of a literal leads into one. -/
theorem Mode.after_ne_string {mode : Mode} {lexeme : Lexeme}
    (notString : ∀ quote, mode ≠ .string quote) (notOpener : ∀ quote, lexeme ≠ .quoteOpener quote)
    (quote : Nat) : mode.after lexeme ≠ .string quote := by
  unfold Mode.after
  split
  · exact Mode.noConfusion
  · next opened => exact absurd rfl (notOpener opened)
  · exact Mode.noConfusion
  · exact Mode.noConfusion
  · split <;> exact Mode.noConfusion
  · exact notString quote

namespace LineScan

variable {scan : LineScan}

@[simp]
theorem carried_settle (scan : LineScan) (asCode : Bool) :
    (scan.settle asCode).current.carried = scan.current.carried := by
  rcases scan.doc.eq_closed_or_ne with ⟨first, closed⟩ | notClosed
  · rw [settle_of_closed closed]
    simp only [resolveDoc, Marks.resolve]
    split <;> rfl
  · rw [settle_of_not_closed notClosed]

theorem carried_observe (scan : LineScan) (lexeme : Lexeme) :
    (scan.observe profile lexeme).current.carried = scan.current.carried := by
  have marked : scan.markCode.current.carried = scan.current.carried :=
    carried_settle scan true
  cases lexeme with
  | plain c =>
      simp only [observe]
      split
      · rfl
      · exact marked
  | charLiteral => exact marked
  | quoteOpener quote =>
      simp only [observe]
      by_cases candidate : scan.Candidate profile quote
      · rw [openQuote_of_candidate candidate]
      · rw [openQuote_of_not_candidate candidate]
        exact marked
  | _ => rfl

theorem carried_run (valid : scan.mode.Valid profile) (text : Text) :
    (scan.run profile text).current.carried = scan.current.carried :=
  run_induction (motive := fun later => later.current.carried = scan.current.carried)
    (fun _ _ same => (carried_observe _ _).trans same) valid rfl text

/-- No code has been met on the line, and no literal is open. -/
structure Quiet (scan : LineScan) : Prop where
  notString : ∀ quote, scan.mode ≠ .string quote
  doc_eq_none : scan.doc = .none
  code_eq_false : scan.current.code = false

theorem Quiet.observe (quiet : scan.Quiet) {lexeme : Lexeme} (noCode : lexeme.mayBeCode = false) :
    (scan.observe profile lexeme).Quiet := by
  obtain ⟨notString, docEq, codeEq⟩ := quiet
  cases lexeme with
  | plain c =>
      have notVisible : (!isBlank c) = false := noCode
      have blank : isBlank c = true := by simpa using notVisible
      rw [LineScan.observe, if_pos blank]
      exact ⟨notString, docEq, codeEq⟩
  | charLiteral => contradiction
  | quoteOpener => contradiction
  | lineComment => exact ⟨notString, docEq, codeEq⟩
  | blockOpener => exact ⟨fun _ => Mode.noConfusion, docEq, codeEq⟩
  | blockText => exact ⟨notString, docEq, codeEq⟩
  | literalText => exact ⟨notString, docEq, codeEq⟩
  | quoteCloser =>
      refine ⟨fun _ => Mode.noConfusion, ?_, codeEq⟩
      simp only [LineScan.observe, docEq, Docstring.close]
  | nestedOpener =>
      exact ⟨Mode.after_ne_string notString fun _ => Lexeme.noConfusion, docEq, codeEq⟩
  | blockCloser =>
      exact ⟨Mode.after_ne_string notString fun _ => Lexeme.noConfusion, docEq, codeEq⟩

theorem Quiet.run (quiet : scan.Quiet) (valid : scan.mode.Valid profile) {text : Text}
    (noCode : ∀ lexeme ∈ profile.lexemes scan.mode text, lexeme.mayBeCode = false) :
    (scan.run profile text).Quiet := by
  rw [run_eq_foldl_observe valid]
  generalize profile.lexemes scan.mode text = lexemes at noCode
  clear valid
  induction lexemes generalizing scan with
  | nil => exact quiet
  | cons lexeme rest inductionHypothesis =>
      have ⟨here, later⟩ := List.forall_mem_cons.mp noCode
      exact inductionHypothesis (quiet.observe here) later

end LineScan

/-- The kind of the latest line, before other lines follow. -/
theorem tag_of_latest {lines : List Text} {line : Text} {marks : Marks} {older : List Marks}
    (fed : (Scanner.feedLines profile {} (lines ++ [line])).marks = marks :: older) :
    (classify profile (lines ++ [line])).tags[lines.length]? = some marks.kind := by
  have length := Scanner.length_marks_feedLines profile {} (lines ++ [line])
  rw [fed] at length
  have olderLength : older.length = lines.length := by simpa using length
  simp only [classify, Scanner.finish, Scanner.map_kind_finalMarks, fed]
  simp [← olderLength]

/-- A line that begins inside a block comment is a comment or code, and it is a comment if no
code is met on it. -/
theorem tag_of_line_in_block {lines : List Text}
    (begun : (Scanner.feedLines profile {} lines).mode = .block pair depth) (line : Text)
    (after : List Text) :
    let tag := (classify profile (lines ++ line :: after)).tags[lines.length]?
    let scan := ((Scanner.feedLines profile {} lines).beginLine line).run profile line
    (tag = some .comment ∨ tag = some .code) ∧ (scan.Quiet → tag = some .comment) := by
  intro tag scan
  have sound := (Scanner.sound_feedLines profile lines).beginLine line
  have fed : Scanner.feedLines profile {} (lines ++ [line]) = (scan.settle false).leave := by
    rw [Scanner.feedLines_append]
    exact Scanner.feedLine_of_mode_ne_code (by simp [begun]) line
  have carried : (scan.settle false).current.carried = true := by
    rw [LineScan.carried_settle, LineScan.carried_run sound.valid]
    simp [Scanner.beginLine, Scanner.firstMarks, begun]
  have latest := tag_of_latest (congrArg Scanner.marks fed)
  have below : lines.length < (lines ++ [line]).length := by simp
  have tagEq : tag = (classify profile (lines ++ [line] ++ after)).tags[lines.length]? := by
    rw [List.append_assoc]
    rfl
  constructor
  · have kind : (scan.settle false).current.kind = .comment ∨
        (scan.settle false).current.kind = .code := by
      cases codeEq : (scan.settle false).current.code with
      | true => exact .inr (Marks.kind_of_code codeEq)
      | false => exact .inl (Marks.kind_of_carried carried codeEq)
    rw [tagEq]
    rcases tags_append_or_revised profile (lines ++ [line]) after with
      ⟨rest, append⟩ | ⟨_, anomaly, _, revises⟩
    · rw [← append, List.getElem?_append_left (by rwa [length_tags_classify]), latest]
      simpa using kind
    · by_cases reached : anomaly.line ≤ lines.length + 1
      · exact .inr (revises.getElem?_of_le (by rwa [length_tags_classify]) reached).2
      · rw [revises.getElem?_of_lt (Nat.lt_of_not_le reached), latest]
        simpa using kind
  · intro quiet
    have unsettled : scan.settle false = scan := by
      apply LineScan.settle_of_not_closed
      simp [quiet.doc_eq_none]
    rw [unsettled] at latest carried fed
    rw [tagEq, getElem?_tags_append (fed ▸ quiet.notString) below, latest,
      Marks.kind_of_carried carried quiet.code_eq_false]

/-- A line is code just if the second pass says so. -/
theorem Inventory.kind_eq_code_iff {inventory : Inventory} {n : Nat} :
    inventory.kind profile n = .code ↔ inventory.IsCode profile n := by
  rw [kind]
  split
  · next isCode => exact iff_of_true rfl isCode
  · next notCode =>
      refine iff_of_false ?_ notCode
      split <;> exact LineKind.noConfusion

theorem not_isCode_of_tag {lines : List Text} {n : Nat} (below : n < lines.length)
    (tagged : (classify profile lines).tags[n]? = some .comment) :
    ¬ (Inventory.ofLines profile lines).IsCode profile n := by
  rw [getElem?_tags_eq_kind below, Option.some.injEq] at tagged
  rw [← Inventory.kind_eq_code_iff, tagged]
  exact LineKind.noConfusion

/-- A line that is not blank is a comment unless the second pass finds code on it. -/
theorem tag_eq_ite {lines : List Text} {n : Nat} (below : n < lines.length)
    (tagged : (classify profile lines).tags[n]? = some .comment ∨
      (classify profile lines).tags[n]? = some .code) :
    (classify profile lines).tags[n]? =
      some (if (Inventory.ofLines profile lines).IsCode profile n then .code else .comment) := by
  rcases tagged with comment | code
  · rw [if_neg (not_isCode_of_tag below comment), comment]
  · have kind := (getElem?_tags_eq_kind below).symm.trans code
    rw [if_pos (Inventory.kind_eq_code_iff.mp (Option.some.inj kind)), code]

end LineTally
