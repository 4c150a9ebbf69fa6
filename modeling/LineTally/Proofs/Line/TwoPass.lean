import LineTally.Line.Classification
import LineTally.Proofs.Line.Description

/-!
# One pass finds the kinds of two

The scanner never looks back at a whole file, and yet the kinds that it finds are
those of the two passes (`tags_classify_eq_kinds`).  At every point of the file the
marks say of each line what the second pass would say if the file ended there.
Only one literal can still be decided either way: the latest one, while the scanner
carries it as a candidate for documentation.  No other literal that lies on the
current line is documentation any more.
-/

namespace LineTally

/-- Within a line, the scan and the inventory agree. -/
structure LineScan.Agrees (profile : Profile) (scan : LineScan) (inventory : Inventory) :
    Prop where
  sound : scan.Sound profile
  ordered : inventory.Ordered
  mode : inventory.mode = scan.mode
  line : inventory.line = scan.line
  lines : Marks.EachLine (inventory.Describes profile) (scan.current :: scan.past)
  /-- An open literal is the latest one. -/
  latest : ∀ {quote}, scan.mode = .string quote →
    ∃ literal older, inventory.literals = literal :: older ∧ literal.last = inventory.line
  /-- What waits for a decision is the latest literal, and it may be documentation. -/
  waiting : ∀ {first}, scan.doc.first? = some first →
    ∃ literal older, inventory.literals = literal :: older ∧ literal.first = first ∧
      literal.last = inventory.line ∧ inventory.Standing profile literal
  /-- No other literal on the current line is documentation. -/
  standing : ∀ literal ∈ inventory.literals, literal.last = inventory.line →
    inventory.Standing profile literal → scan.doc.first? = some literal.first

namespace LineScan

variable {profile : Profile} {scan : LineScan} {inventory : Inventory}

/-- An earlier line has the provisional mark if it has documentation that goes on to the
current line. -/
theorem Agrees.doc_iff_standing {n : Nat} {marks : Marks}
    (agrees : scan.Agrees profile inventory) (below : n < inventory.line)
    (marked : scan.doc.MarksLine n marks) :
    marks.doc = true ↔ ∃ literal ∈ inventory.literals, literal.Covers n ∧
      literal.Covers inventory.line ∧ inventory.Standing profile literal := by
  rw [marked.1]
  constructor
  · rintro ⟨first, waiting, reached⟩
    obtain ⟨literal, older, literalsEq, rfl, last, stands⟩ := agrees.waiting waiting
    have listed : literal ∈ inventory.literals := literalsEq ▸ List.mem_cons_self
    refine ⟨literal, listed, ⟨reached, last ▸ Nat.le_of_lt below⟩, ?_, stands⟩
    exact (agrees.ordered.covers_line_iff listed).mpr last
  · rintro ⟨literal, listed, covers, onLine, stands⟩
    have last := (agrees.ordered.covers_line_iff listed).mp onLine
    exact ⟨literal.first, agrees.standing literal listed last stands, covers.1⟩

/-- Next to code on the current line, documentation on an earlier line becomes code in the
marks as it does in the second pass. -/
theorem Agrees.describes_resolve {other : Inventory} {piece : Piece} {n : Nat} {marks : Marks}
    (agrees : scan.Agrees profile inventory)
    (disturbs : ∀ literal ∈ inventory.literals, piece.disturbs literal.serial = true)
    (notComment : piece ≠ .comment)
    (piecesEq : other.pieces = (inventory.line, piece) :: inventory.pieces)
    (literalsIff : ∀ literal, literal.Covers n →
      (literal ∈ other.literals ↔ literal ∈ inventory.literals))
    (below : n < inventory.line) (marked : scan.doc.MarksLine n marks)
    (describes : inventory.Describes profile n marks) :
    other.Describes profile n (marks.resolve true) := by
  have codeIff := Inventory.isCode_iff_of_disturbs profile disturbs piecesEq literalsIff below
  have touchesIff := Inventory.touches_iff_of_pieces_eq piecesEq literalsIff
  have docIff := agrees.doc_iff_standing below marked
  constructor
  · rw [codeIff, ← describes.1, ← docIff]
    cases codeMark : marks.code <;> cases docMark : marks.doc <;>
      simp [Marks.resolve, codeMark, docMark]
  · intro notCode
    rw [touchesIff]
    cases docMark : marks.doc with
    | true => simp [Marks.resolve, docMark] at notCode
    | false =>
        rw [Marks.resolve_of_doc_eq_false docMark] at notCode ⊢
        simpa [notComment] using describes.2 notCode

/-- Code on the current line: the lines of the literal that waits for a decision become
code in the marks as they do in the second pass. -/
theorem Agrees.eachLine_markCode {other : Inventory} {piece : Piece}
    (agrees : scan.Agrees profile inventory) (inCode : scan.mode = .code)
    (disturbs : ∀ literal ∈ inventory.literals, piece.disturbs literal.serial = true)
    (notComment : piece ≠ .comment)
    (piecesEq : other.pieces = (inventory.line, piece) :: inventory.pieces)
    (literalsIff : ∀ n literal, n < inventory.line → literal.Covers n →
      (literal ∈ other.literals ↔ literal ∈ inventory.literals))
    (isCode : other.IsCode profile inventory.line) :
    Marks.EachLine (other.Describes profile) (scan.markCode.current :: scan.markCode.past) := by
  have sound := agrees.sound
  have earlier (n : Nat) (marks : Marks) (below : n < inventory.line)
      (marked : scan.doc.MarksLine n marks) (describes : inventory.Describes profile n marks) :
      other.Describes profile n (marks.resolve true) :=
    agrees.describes_resolve disturbs notComment piecesEq (literalsIff n · below) below marked
      describes
  have settled : Marks.EachLine
      (fun n marks => n < inventory.line → other.Describes profile n marks)
      ((scan.settle true).current :: (scan.settle true).past) := by
    apply eachLine_settle (sound.lines.and agrees.lines) sound.length_past
    · exact fun _ _ both => both.1
    · intro notClosed n marks _ both below
      have undecided : scan.doc = .none := by
        have settledDoc := sound.doc_settle inCode true
        rwa [settle_of_not_closed notClosed] at settledDoc
      have describes := earlier n marks below both.1 both.2
      have unmarked := both.1
      rw [undecided, Docstring.marksLine_none_iff] at unmarked
      rwa [Marks.resolve_of_doc_eq_false unmarked] at describes
    · intro _ _ n marks _ both below
      exact earlier n marks below both.1 both.2
  have length : scan.markCode.past.length = inventory.line := by
    rw [length_past_markCode, sound.length_past, agrees.line]
  constructor
  · rw [length]
    exact ⟨by simp [markCode_eq_settle, isCode], by simp [markCode_eq_settle]⟩
  · apply settled.2.imp
    intro n marks below describes
    exact describes (length ▸ below)

theorem Agrees.markCode (agrees : scan.Agrees profile inventory) (piece : Piece)
    (inCode : scan.mode = .code) (code : piece.isCode = true) :
    scan.markCode.Agrees profile (inventory.put piece) := by
  have notLiteral (serial : Nat) : piece ≠ .literal serial := by
    rintro rfl
    contradiction
  have disturbs (serial : Nat) : piece.disturbs serial = true := by
    cases piece with
    | literal other => exact absurd rfl (notLiteral other)
    | _ => exact code
  have modeEq : scan.markCode.mode = .code := (mode_markCode scan).trans inCode
  constructor
  case sound => exact agrees.sound.markCode inCode
  case ordered => exact agrees.ordered.put notLiteral
  case mode => exact agrees.mode.trans (mode_markCode scan).symm
  case line => exact agrees.line.trans (line_markCode scan).symm
  case lines =>
    refine agrees.eachLine_markCode inCode (fun literal _ => disturbs literal.serial) ?_ rfl
      (fun _ _ _ _ => Iff.rfl) ?_
    · rintro rfl
      contradiction
    · exact .inl ⟨_, List.mem_cons_self, rfl, code⟩
  case latest =>
    intro quote inString
    rw [modeEq] at inString
    contradiction
  case waiting =>
    intro first waiting
    rw [show scan.markCode.doc = .none from agrees.sound.doc_settle inCode true] at waiting
    contradiction
  case standing =>
    intro literal listed last stands
    have onLine := (agrees.ordered.covers_line_iff listed).mpr last
    have undisturbed := ((Inventory.standing_of_pieces_eq rfl literal).mp stands).2 onLine
    rw [disturbs] at undisturbed
    contradiction

/-- Where a candidate opens, no other literal lies on the line. -/
theorem Agrees.last_ne_of_candidate {quote : Nat} (agrees : scan.Agrees profile inventory)
    (candidate : scan.Candidate profile quote) :
    ¬ inventory.IsCode profile inventory.line ∧
      ∀ literal ∈ inventory.literals, literal.last ≠ inventory.line := by
  obtain ⟨_, notCode, undecided⟩ := candidate
  have describes := agrees.lines.1
  rw [agrees.sound.length_past, ← agrees.line] at describes
  have notCodeLine : ¬ inventory.IsCode profile inventory.line := by
    rw [← describes.1, notCode]
    exact Bool.false_ne_true
  refine ⟨notCodeLine, ?_⟩
  intro literal listed last
  by_cases stands : inventory.Standing profile literal
  · have waiting := agrees.standing literal listed last stands
    rw [undecided] at waiting
    contradiction
  · have onLine := (agrees.ordered.covers_line_iff listed).mpr last
    exact notCodeLine (.inr ⟨literal, listed, onLine, stands⟩)

theorem Agrees.openCandidate {quote : Nat} (agrees : scan.Agrees profile inventory)
    (sound : (scan.openQuote profile quote).Sound profile)
    (candidate : scan.Candidate profile quote) :
    (scan.openQuote profile quote).Agrees profile
      { inventory.openLiteral quote with mode := .string quote } := by
  obtain ⟨notCode, alone⟩ := agrees.last_ne_of_candidate candidate
  have lengthPast := agrees.sound.length_past
  rw [openQuote_of_candidate candidate] at sound ⊢
  obtain ⟨mayBeDoc, noCodeMark, undecided⟩ := candidate
  have ordered := agrees.ordered
  have stands := (ordered.standing_newLiteral_iff quote).mpr ⟨mayBeDoc, notCode, alone⟩
  have isCodeIff := ordered.isCode_openLiteral_iff stands alone
  constructor
  case sound => exact sound
  case ordered => exact (ordered.openLiteral quote).withMode _
  case mode => rfl
  case line => exact agrees.line
  case lines =>
    constructor
    · rw [lengthPast, ← agrees.line]
      constructor
      · have codeMark := (Bool.not_eq_true _).mpr noCodeMark
        exact iff_of_false codeMark (mt (isCodeIff inventory.line).mp notCode)
      · intro _
        have covers := inventory.covers_newLiteral quote
        exact iff_of_true (by simp) (.inr ⟨_, List.mem_cons_self, covers⟩)
    · apply agrees.lines.2.imp
      intro n marks below describes
      rw [lengthPast, ← agrees.line] at below
      have touchesIff := Inventory.touches_iff_of_pieces_eq
        (rfl : (inventory.openLiteral quote).pieces = _)
        fun _ covers => Inventory.mem_literals_openLiteral_iff below covers
      exact describes.congr rfl rfl (isCodeIff n) (touchesIff.trans (by simp))
  case latest =>
    intro _ _
    exact ⟨_, _, rfl, rfl⟩
  case waiting =>
    intro first waiting
    cases waiting
    exact ⟨_, _, rfl, agrees.line, rfl, stands⟩
  case standing =>
    intro literal listed last _
    rcases List.mem_cons.mp listed with rfl | old
    · exact congrArg some agrees.line.symm
    · exact absurd last (alone literal old)

/-- A literal that opens where it is no candidate is code. -/
theorem Agrees.not_standing_of_not_candidate {quote : Nat}
    (agrees : scan.Agrees profile inventory) (notCandidate : ¬ scan.Candidate profile quote) :
    ¬ (inventory.openLiteral quote).Standing profile (inventory.newLiteral quote) := by
  intro stands
  obtain ⟨mayBeDoc, notCode, alone⟩ := (agrees.ordered.standing_newLiteral_iff quote).mp stands
  have describes := agrees.lines.1
  rw [agrees.sound.length_past, ← agrees.line] at describes
  have noCodeMark : scan.current.code = false := eq_false_of_ne_true (mt describes.1.mp notCode)
  refine notCandidate ⟨mayBeDoc, noCodeMark, ?_⟩
  cases waiting : scan.doc.first? with
  | none => exact Docstring.first?_eq_none_iff.mp waiting
  | some first =>
      obtain ⟨literal, older, literalsEq, _, last, _⟩ := agrees.waiting waiting
      exact absurd last (alone literal (literalsEq ▸ List.mem_cons_self))

theorem Agrees.openCode {quote : Nat} (agrees : scan.Agrees profile inventory)
    (inCode : scan.mode = .code) (sound : (scan.openQuote profile quote).Sound profile)
    (notCandidate : ¬ scan.Candidate profile quote) :
    (scan.openQuote profile quote).Agrees profile
      { inventory.openLiteral quote with mode := .string quote } := by
  have notStanding := agrees.not_standing_of_not_candidate notCandidate
  have disturbs (literal : Literal) (listed : literal ∈ inventory.literals) :
      (Piece.literal (inventory.newLiteral quote).serial).disturbs literal.serial = true :=
    bne_iff_ne.mpr (agrees.ordered.serial_ne_newLiteral quote listed).symm
  have lines : Marks.EachLine ((inventory.openLiteral quote).Describes profile)
      (scan.markCode.current :: scan.markCode.past) := by
    apply agrees.eachLine_markCode inCode disturbs Piece.noConfusion rfl
    · exact fun _ _ below covers => Inventory.mem_literals_openLiteral_iff below covers
    · exact .inr ⟨_, List.mem_cons_self, inventory.covers_newLiteral quote, notStanding⟩
  have docEq : scan.markCode.doc = .none := agrees.sound.doc_settle inCode true
  rw [openQuote_of_not_candidate notCandidate] at sound ⊢
  constructor
  case sound => exact sound
  case ordered => exact (agrees.ordered.openLiteral quote).withMode _
  case mode => rfl
  case line => exact agrees.line.trans (line_markCode scan).symm
  case lines => exact lines
  case latest =>
    intro _ _
    exact ⟨_, _, rfl, rfl⟩
  case waiting =>
    intro first waiting
    rw [docEq] at waiting
    contradiction
  case standing =>
    intro literal listed last stands
    rcases List.mem_cons.mp listed with rfl | old
    · exact absurd stands notStanding
    · have onLine := (agrees.ordered.covers_line_iff old).mpr last
      have undisturbed := ((Inventory.standing_of_pieces_eq rfl literal).mp stands).2 onLine
      rw [disturbs literal old] at undisturbed
      contradiction

theorem Agrees.eachLine_putHarmless {next : LineScan} {piece : Piece}
    (agrees : scan.Agrees profile inventory)
    (harmless : ∀ serial, piece.disturbs serial = false) (pastEq : next.past = scan.past)
    (codeEq : next.current.code = scan.current.code)
    (commentIff : (next.current.comment || next.current.carried || next.current.doc) = true ↔
      piece = .comment ∨
        (scan.current.comment || scan.current.carried || scan.current.doc) = true) :
    Marks.EachLine ((inventory.put piece).Describes profile) (next.current :: next.past) := by
  have isCodeIff (n : Nat) : (inventory.put piece).IsCode profile n ↔
      inventory.IsCode profile n :=
    Inventory.isCode_put_iff harmless n
  have touchesIff (n : Nat) : (inventory.put piece).Touches n ↔
      (inventory.line = n ∧ piece = .comment) ∨ inventory.Touches n :=
    Inventory.touches_iff_of_pieces_eq rfl fun _ _ => Iff.rfl
  have lengthPast := agrees.sound.length_past
  obtain ⟨latest, earlier⟩ := agrees.lines
  rw [lengthPast] at latest
  rw [pastEq]
  constructor
  · rw [lengthPast]
    constructor
    · rw [codeEq, latest.1, isCodeIff]
    · intro notCode
      rw [codeEq] at notCode
      rw [commentIff, latest.2 notCode, touchesIff]
      simp [agrees.line]
  · apply earlier.imp
    intro n marks below describes
    rw [lengthPast, ← agrees.line] at below
    apply describes.congr rfl rfl (isCodeIff n)
    rw [touchesIff]
    simp [Nat.ne_of_gt below]

/-- A piece that disturbs nothing, with the mark that it leaves. -/
theorem Agrees.putHarmless {next : LineScan} (agrees : scan.Agrees profile inventory)
    (piece : Piece) (sound : next.Sound profile)
    (harmless : ∀ serial, piece.disturbs serial = false)
    (lineEq : next.line = scan.line) (pastEq : next.past = scan.past)
    (codeEq : next.current.code = scan.current.code)
    (commentIff : (next.current.comment || next.current.carried || next.current.doc) = true ↔
      piece = .comment ∨
        (scan.current.comment || scan.current.carried || scan.current.doc) = true)
    (docEq : next.doc = scan.doc) (notString : ∀ quote, next.mode ≠ .string quote) :
    next.Agrees profile { inventory.put piece with mode := next.mode } := by
  have notLiteral (serial : Nat) : piece ≠ .literal serial := by
    rintro rfl
    have other := harmless (serial + 1)
    simp [Piece.disturbs] at other
  have standingIff (literal : Literal) :
      (inventory.put piece).Standing profile literal ↔ inventory.Standing profile literal :=
    Inventory.standing_put_iff harmless literal
  constructor
  case sound => exact sound
  case ordered => exact (agrees.ordered.put notLiteral).withMode _
  case mode => rfl
  case line => exact agrees.line.trans lineEq.symm
  case lines => exact agrees.eachLine_putHarmless harmless pastEq codeEq commentIff
  case latest => exact fun inString => absurd inString (notString _)
  case waiting =>
    intro first waiting
    rw [docEq] at waiting
    obtain ⟨literal, older, literalsEq, firstEq, last, stands⟩ := agrees.waiting waiting
    exact ⟨literal, older, literalsEq, firstEq, last, (standingIff literal).mpr stands⟩
  case standing =>
    intro literal listed last stands
    rw [docEq]
    exact agrees.standing literal listed last ((standingIff literal).mp stands)

/-- Inside a region only the mode changes. -/
theorem Agrees.move {next : LineScan} (agrees : scan.Agrees profile inventory)
    (sound : next.Sound profile) (lineEq : next.line = scan.line)
    (pastEq : next.past = scan.past) (currentEq : next.current = scan.current)
    (firstEq : next.doc.first? = scan.doc.first?)
    (string : ∀ {quote}, next.mode = .string quote → scan.mode = .string quote) :
    next.Agrees profile { inventory with mode := next.mode } := by
  constructor
  case sound => exact sound
  case ordered => exact agrees.ordered.withMode _
  case mode => rfl
  case line => exact agrees.line.trans lineEq.symm
  case lines =>
    rw [currentEq, pastEq]
    exact agrees.lines
  case latest =>
    intro quote inString
    exact agrees.latest (string inString)
  case waiting =>
    intro first waiting
    rw [firstEq] at waiting
    exact agrees.waiting waiting
  case standing =>
    rw [firstEq]
    exact agrees.standing

/-- Every lexeme keeps the agreement. -/
theorem Agrees.observe {lexeme : Lexeme} (agrees : scan.Agrees profile inventory)
    (fits : lexeme.Fits profile scan.mode) :
    (scan.observe profile lexeme).Agrees profile (inventory.note lexeme) := by
  have sound := agrees.sound.observe fits
  rcases scan with ⟨mode, line, past, current, regionLine, doc⟩
  rcases inventory with ⟨mode', line', pieces, literals⟩
  obtain rfl : mode' = mode := agrees.mode
  cases fits with
  | plain c =>
      simp only [LineScan.observe] at sound ⊢
      split
      · next isBlank =>
          refine agrees.putHarmless (.plain c) agrees.sound ?_ rfl rfl rfl ?_ rfl
            (fun _ => Mode.noConfusion)
          · intro serial
            simp [Piece.disturbs, Piece.isCode, isBlank]
          · exact (or_iff_right Piece.noConfusion).symm
      · next visible =>
          apply agrees.markCode (.plain c) rfl
          simp [Piece.isCode, visible]
  | charLiteral => exact agrees.markCode .charLiteral rfl rfl
  | lineComment =>
      refine agrees.putHarmless .comment sound (fun _ => rfl) rfl rfl rfl ?_ rfl
        (fun _ => Mode.noConfusion)
      exact iff_of_true rfl (.inl rfl)
  | blockOpener =>
      refine agrees.putHarmless .comment sound (fun _ => rfl) rfl rfl rfl ?_ rfl
        (fun _ => Mode.noConfusion)
      exact iff_of_true rfl (.inl rfl)
  | @quoteOpener quote literal listed ne =>
      by_cases candidate : Candidate profile quote ⟨.code, line, past, current, regionLine, doc⟩
      · exact agrees.openCandidate sound candidate
      · exact agrees.openCode rfl sound candidate
  | blockText => exact agrees
  | nestedOpener => exact agrees.move sound rfl rfl rfl rfl Mode.noConfusion
  | blockCloser pair depth =>
      apply agrees.move sound rfl rfl rfl rfl
      intro quote
      simp only [LineScan.observe, Mode.after]
      split <;> exact Mode.noConfusion
  | literalText => exact agrees
  | quoteCloser =>
      exact agrees.move sound rfl rfl rfl (Docstring.first?_close doc) Mode.noConfusion

end LineScan

/-- Between two lines, the scanner and the inventory agree. -/
structure Scanner.Agrees (profile : Profile) (scanner : Scanner) (inventory : Inventory) :
    Prop where
  sound : scanner.Sound profile
  mode : inventory.mode = scanner.mode
  line : inventory.line = scanner.line
  lines : Marks.EachLine (inventory.Describes profile) scanner.marks
  ended : inventory.Ended
  /-- An open literal is the latest one, and it may be documentation if it waits for a
  decision. -/
  latest : ∀ {quote}, scanner.mode = .string quote →
    ∃ literal older, inventory.literals = literal :: older ∧
      literal.last + 1 = inventory.line ∧
        ∀ first, scanner.doc = .opened first ↔
          literal.first = first ∧ inventory.Standing profile literal

namespace LineScan

variable {profile : Profile} {scan : LineScan} {inventory : Inventory}

theorem Agrees.endLine (agrees : scan.Agrees profile inventory) :
    scan.endLine.Agrees profile inventory.endLine := by
  have sound := agrees.sound
  have settled : Marks.EachLine (inventory.Describes profile)
      ((scan.settle false).current :: (scan.settle false).past) := by
    refine eachLine_settle (sound.lines.and agrees.lines) sound.length_past
      (fun _ _ both => both.1) (fun _ _ _ _ both => both.2) ?_
    intro _ _ n marks _ both
    refine both.2.congr ?_ ?_ Iff.rfl Iff.rfl
    · cases docMark : marks.doc <;> simp [Marks.resolve, docMark]
    · cases docMark : marks.doc <;> simp [Marks.resolve, docMark]
  have modeEq : scan.endLine.mode = scan.mode := mode_settle scan false
  have lineEq : scan.endLine.line = scan.line + 1 := (numbering_endLine scan).1
  constructor
  case sound => exact sound.endLine
  case mode => exact agrees.mode.trans modeEq.symm
  case line =>
    rw [lineEq, ← agrees.line]
    rfl
  case lines => exact settled
  case ended => exact agrees.ordered.endLine_ended
  case latest =>
    intro quote inString
    rw [modeEq] at inString
    have notClosed : ∀ first, scan.doc ≠ .closed first := by
      intro first closed
      exact sound.closed closed quote inString
    obtain ⟨literal, older, literalsEq, last⟩ := agrees.latest inString
    refine ⟨literal, older, literalsEq, congrArg (· + 1) last, fun first => ?_⟩
    rw [endLine_eq_settle, settle_of_not_closed notClosed]
    constructor
    · intro isOpened
      obtain ⟨other, older', literalsEq', firstEq, _, stands⟩ :=
        agrees.waiting (show scan.doc.first? = some first by
          rw [show scan.doc = _ from isOpened]; rfl)
      rw [literalsEq] at literalsEq'
      cases literalsEq'
      exact ⟨firstEq, stands⟩
    · rintro ⟨rfl, stands⟩
      have listed : literal ∈ inventory.literals := literalsEq ▸ List.mem_cons_self
      have waiting := agrees.standing literal listed last stands
      exact Docstring.eq_opened_of_first?_eq_some notClosed waiting

end LineScan

namespace Scanner

variable {profile : Profile} {scanner : Scanner} {inventory : Inventory}

/-- A line that begins outside literals has nothing on it. -/
theorem Agrees.beginBlank (agrees : scanner.Agrees profile inventory)
    (notString : ∀ quote, scanner.mode ≠ .string quote) (line : Text) :
    { scanner.beginLine line with current := { blank := line.allBlank } }.Agrees profile
      inventory := by
  have ended := agrees.ended
  have undecided := agrees.sound.doc_eq_none notString
  have begun := agrees.sound.beginLine line
  have unmarked : (scanner.firstMarks line).doc = false ∧
      (scanner.firstMarks line).code = false := by
    rw [firstMarks]
    split
    · exact ⟨rfl, rfl⟩
    · exact ⟨rfl, rfl⟩
    · next inString _ => exact absurd inString (notString _)
    · next inString _ => exact absurd inString (notString _)
  have sound : { scanner.beginLine line with current := { blank := line.allBlank } }.Sound
      profile :=
    begun.congr begun.valid rfl rfl rfl unmarked.1.symm unmarked.2.symm begun.regionLine_le
      begun.opened begun.closed
  constructor
  case sound => exact sound
  case ordered => exact ended.ordered
  case mode => exact agrees.mode
  case line => exact agrees.line
  case lines =>
    constructor
    · rw [sound.length_past]
      simp only [beginLine, ← agrees.line]
      exact ⟨iff_of_false Bool.false_ne_true ended.not_isCode,
        fun _ => iff_of_false Bool.false_ne_true ended.not_touches⟩
    · exact agrees.lines
  case latest => exact fun inString => absurd inString (notString _)
  case waiting =>
    intro first waiting
    simp only [beginLine, undecided] at waiting
    contradiction
  case standing =>
    intro literal listed last _
    exact absurd last (Nat.ne_of_lt (ended.literals_lt literal listed).2.1)

/-- A line that begins inside a literal is code unless the literal waits for a decision. -/
theorem Agrees.describes_beginString {quote : Nat} (agrees : scanner.Agrees profile inventory)
    (inString : scanner.mode = .string quote) (line : Text) :
    inventory.extendLiteral.Describes profile inventory.line (scanner.beginLine line).current := by
  obtain ⟨literal, older, literalsEq, last, openedIff⟩ := agrees.latest inString
  have isCodeIff := agrees.ended.isCode_extended_iff profile literalsEq last
  have touches := agrees.ended.touches_extended literalsEq last
  by_cases stands : inventory.Standing profile literal
  · have isOpened := (openedIff literal.first).mpr ⟨rfl, stands⟩
    have marksEq : (scanner.beginLine line).current =
        { blank := line.allBlank, doc := true } := by
      simp only [beginLine, firstMarks, inString, isOpened]
    have notCode := mt isCodeIff.mp (not_not_intro stands)
    rw [marksEq]
    exact ⟨iff_of_false Bool.false_ne_true notCode, fun _ => iff_of_true rfl touches⟩
  · have marksEq : (scanner.beginLine line).current =
        { blank := line.allBlank, code := true } := by
      cases docEq : scanner.doc with
      | opened first => exact absurd ((openedIff first).mp docEq).2 stands
      | _ => simp only [beginLine, firstMarks, inString, docEq]
    rw [marksEq]
    exact ⟨iff_of_true rfl (isCodeIff.mpr stands), fun notCode => absurd notCode Bool.noConfusion⟩

/-- A line that begins inside a literal has a piece of it. -/
theorem Agrees.beginString {quote : Nat} (agrees : scanner.Agrees profile inventory)
    (inString : scanner.mode = .string quote) (line : Text) :
    (scanner.beginLine line).Agrees profile inventory.extendLiteral := by
  have sound := agrees.sound.beginLine line
  have ended := agrees.ended
  have current := agrees.describes_beginString inString line
  obtain ⟨literal, older, literalsEq, last, openedIff⟩ := agrees.latest inString
  have extendEq := Inventory.extendLiteral_eq literalsEq
  have standing := ended.standing_extended profile literalsEq last
  have lineEq : inventory.extendLiteral.line = inventory.line := by
    rw [extendEq]
    rfl
  have literalsEq' : inventory.extendLiteral.literals =
      { literal with last := inventory.line } :: older := by
    rw [extendEq]
  constructor
  case sound => exact sound
  case ordered => exact ended.extendLiteral_ordered literalsEq last
  case mode =>
    rw [extendEq]
    exact agrees.mode
  case line =>
    rw [lineEq]
    exact agrees.line
  case lines =>
    constructor
    · have length : (scanner.beginLine line).past.length = inventory.line :=
        sound.length_past.trans agrees.line.symm
      rwa [length]
    · apply agrees.lines.imp
      intro n marks below describes
      rw [agrees.sound.length_marks, ← agrees.line] at below
      exact ended.describes_extended literalsEq last below describes
  case latest =>
    intro _ _
    exact ⟨_, older, literalsEq', lineEq.symm⟩
  case waiting =>
    intro first waiting
    have isOpened : scanner.doc = .opened first := agrees.sound.doc_eq_opened waiting
    obtain ⟨rfl, stands⟩ := (openedIff first).mp isOpened
    exact ⟨_, older, literalsEq', rfl, lineEq.symm, standing.mpr stands⟩
  case standing =>
    intro other listed onLine stands
    rw [literalsEq'] at listed
    rw [lineEq] at onLine
    rcases List.mem_cons.mp listed with rfl | old
    · have isOpened := (openedIff literal.first).mpr ⟨rfl, standing.mp stands⟩
      rw [show (scanner.beginLine line).doc = .opened literal.first from isOpened]
      rfl
    · have lastLt := (ended.literals_lt other (literalsEq ▸ List.mem_cons_of_mem _ old)).2.1
      exact absurd onLine (Nat.ne_of_lt lastLt)

/-- A line begins with what the open region leaves on it. -/
theorem Agrees.beginLine (agrees : scanner.Agrees profile inventory) (line : Text) :
    (scanner.beginLine line).Agrees profile inventory.beginLine := by
  have modeEq := agrees.mode
  rw [Inventory.beginLine]
  cases inside : scanner.mode with
  | code =>
      have blank := agrees.beginBlank (by simp [inside]) line
      rw [inside] at modeEq
      rw [modeEq]
      have begun : scanner.beginLine line =
          { scanner.beginLine line with current := { blank := line.allBlank } } := by
        simp only [Scanner.beginLine, firstMarks, inside]
      rwa [← begun] at blank
  | block pair depth =>
      have put := (agrees.beginBlank (by simp [inside]) line).putHarmless .comment
        (agrees.sound.beginLine line) (fun _ => rfl) rfl rfl ?_ ?_ rfl ?_
      · have same : { inventory.put .comment with mode := (scanner.beginLine line).mode } =
            inventory.put .comment := by
          rw [show (scanner.beginLine line).mode = inventory.mode from modeEq.symm]
          rfl
        rw [inside] at modeEq
        rw [modeEq]
        rwa [same] at put
      · simp only [Scanner.beginLine, firstMarks, inside]
      · simp [Scanner.beginLine, firstMarks, inside]
      · intro quote inString
        exact absurd (inside.symm.trans inString) Mode.noConfusion
  | string quote =>
      have begun := agrees.beginString inside line
      rw [inside] at modeEq
      rwa [modeEq]

/-- Every line keeps the agreement. -/
theorem Agrees.readLine (agrees : scanner.Agrees profile inventory) (line : Text) :
    (scanner.feedLine profile line).Agrees profile (inventory.readLine profile line) := by
  have modeEq := agrees.mode
  have begun := agrees.beginLine line
  unfold Scanner.feedLine Inventory.readLine
  rw [modeEq]
  split
  · next columnOne =>
      obtain ⟨inCode, _⟩ := columnOne
      -- The scanner does what it does for a comment that ends the line.
      rw [inCode] at modeEq
      have undecided := agrees.sound.doc_eq_none (by simp [inCode])
      have fits : Lexeme.lineComment.Fits profile (scanner.beginLine line).mode := by
        rw [show (scanner.beginLine line).mode = .code from inCode]
        exact .lineComment
      have ended := (begun.observe fits).endLine
      have scannerEq : ((scanner.beginLine line).observe profile .lineComment).endLine =
          { scanner with
            line := scanner.line + 1
            marks := { scanner.firstMarks line with comment := true } :: scanner.marks } := by
        rw [LineScan.endLine_eq_settle, LineScan.settle_of_not_closed]
        · rfl
        · exact agrees.sound.not_closed
      have inventoryEq : inventory.beginLine.note .lineComment = inventory.put .comment := by
        rw [Inventory.beginLine, modeEq]
        simp only [Inventory.note, Inventory.put]
        rw [modeEq]
        rfl
      rwa [scannerEq, inventoryEq] at ended
  · next =>
      apply LineScan.Agrees.endLine
      exact LineScan.related_run (fun fits _ agrees => agrees.observe fits) begun.sound.valid begun
        line

theorem agrees_empty (profile : Profile) : ({} : Scanner).Agrees profile {} := by
  constructor
  case sound => exact sound_empty profile
  case mode => rfl
  case line => rfl
  case lines => trivial
  case ended =>
    constructor
    · intro entry member
      contradiction
    · intro literal listed
      contradiction
  case latest =>
    intro quote inString
    contradiction

/-- The scanner and the inventory agree after any lines. -/
theorem agrees_feedLines (profile : Profile) (lines : List Text) :
    (Scanner.feedLines profile {} lines).Agrees profile (Inventory.ofLines profile lines) := by
  have start := agrees_empty profile
  unfold feedLines Inventory.ofLines
  generalize ({} : Scanner) = scanner at start
  generalize ({} : Inventory) = inventory at start
  induction lines generalizing scanner inventory with
  | nil => exact start
  | cons line rest inductionHypothesis => exact inductionHypothesis _ _ (start.readLine line)

end Scanner

/-- The kinds that the scanner finds in one pass are those of the two passes. -/
theorem tags_classify_eq_kinds (profile : Profile) (lines : List Text) :
    (classify profile lines).tags = (Inventory.ofLines profile lines).kinds profile := by
  have agrees := Scanner.agrees_feedLines profile lines
  have told := Marks.eachLine_of_forall (Scanner.isTold_feedLines profile lines)
  have kinds : Marks.EachLine
      (fun n marks => marks.kind = (Inventory.ofLines profile lines).kind profile n)
      (Scanner.feedLines profile {} lines).marks :=
    (agrees.lines.and told).imp fun _ _ _ both => both.1.kind_eq both.2
  calc
    (classify profile lines).tags =
        ((Scanner.feedLines profile {} lines).marks.map Marks.kind).reverse := by
      rw [← Scanner.map_kind_finalMarks]
      rfl
    _ = (List.range (Scanner.feedLines profile {} lines).marks.length).map
          ((Inventory.ofLines profile lines).kind profile) :=
      kinds.reverse_map_eq
    _ = (Inventory.ofLines profile lines).kinds profile := by
      rw [agrees.sound.length_marks, ← agrees.line]
      rfl

end LineTally
