import LineTally.Proofs.Line.Inventory
import LineTally.Proofs.Line.Marking

/-!
# Marks and inventories

The marks of a line describe it if they say what the second pass would say of it,
had the file ended there.  This module tells how that changes as the first pass
goes on: when a piece is put on the current line, when a literal opens, and when a
literal goes on to a new line.
-/

namespace LineTally

namespace Inventory

variable {profile : Profile} {inventory : Inventory}

/-- A comment or a literal lies on line `n`. -/
def Touches (inventory : Inventory) (n : Nat) : Prop :=
  (∃ entry ∈ inventory.pieces, entry.1 = n ∧ entry.2 = .comment) ∨
    ∃ literal ∈ inventory.literals, literal.Covers n

/-- The marks of line `n` say what the second pass says of it. -/
def Describes (profile : Profile) (inventory : Inventory) (n : Nat) (marks : Marks) : Prop :=
  (marks.code = true ↔ inventory.IsCode profile n) ∧
    (marks.code = false →
      ((marks.comment || marks.carried || marks.doc) = true ↔ inventory.Touches n))

/-- A line that is no code is a comment if anything lies on it. -/
theorem isComment_iff_touches {n : Nat} (notCode : ¬ inventory.IsCode profile n) :
    inventory.IsComment profile n ↔ inventory.Touches n := by
  constructor
  · rintro (piece | ⟨literal, listed, covers, _⟩)
    · exact .inl piece
    · exact .inr ⟨literal, listed, covers⟩
  · rintro (piece | ⟨literal, listed, covers⟩)
    · exact .inl piece
    · by_cases standing : inventory.Standing profile literal
      · exact .inr ⟨literal, listed, covers, standing⟩
      · exact absurd (.inr ⟨literal, listed, covers, standing⟩) notCode

/-- Marks that describe a line tell its kind. -/
theorem Describes.kind_eq {n : Nat} {marks : Marks}
    (describes : inventory.Describes profile n marks) (told : marks.IsTold) :
    marks.kind = inventory.kind profile n := by
  obtain ⟨code, comment⟩ := describes
  unfold Marks.kind Inventory.kind
  cases codeMark : marks.code with
  | true =>
      rw [if_pos rfl, if_pos (code.mp codeMark)]
  | false =>
      have notCode : ¬ inventory.IsCode profile n := by
        rw [← code, codeMark]
        exact Bool.false_ne_true
      rw [if_neg Bool.false_ne_true, if_neg notCode]
      have touches := comment codeMark
      rw [← isComment_iff_touches notCode] at touches
      by_cases isComment : inventory.IsComment profile n
      · rw [if_pos (touches.mpr isComment), if_pos isComment]
      · rw [if_neg (mt touches.mp isComment), if_neg isComment]
        rcases told with marked | blank
        · refine absurd ?_ (mt touches.mp isComment)
          rcases marked with onCode | onComment | carried | doc
          · rw [codeMark] at onCode
            contradiction
          · simp [onComment]
          · simp [carried]
          · simp [doc]
        · rw [if_pos blank]

/-- Whether a literal is documentation depends on the pieces alone. -/
theorem standing_of_pieces_eq {other : Inventory} {piece : Nat × Piece}
    (piecesEq : other.pieces = piece :: inventory.pieces) (literal : Literal) :
    other.Standing profile literal ↔
      inventory.Standing profile literal ∧
        (literal.Covers piece.1 → piece.2.disturbs literal.serial = false) := by
  rw [Standing, piecesEq]
  simp only [List.mem_cons, forall_eq_or_imp]
  constructor
  · rintro ⟨mayBeDoc, latest, others⟩
    exact ⟨⟨mayBeDoc, others⟩, latest⟩
  · rintro ⟨⟨mayBeDoc, others⟩, latest⟩
    exact ⟨mayBeDoc, latest, others⟩

/-- What the second pass says of a line depends on the pieces and on the literals that
cover it. -/
theorem Describes.congr {other : Inventory} {n : Nat} {marks marks' : Marks}
    (describes : inventory.Describes profile n marks)
    (codeEq : marks'.code = marks.code)
    (commentEq : (marks'.comment || marks'.carried || marks'.doc) =
      (marks.comment || marks.carried || marks.doc))
    (isCodeIff : other.IsCode profile n ↔ inventory.IsCode profile n)
    (touchesIff : other.Touches n ↔ inventory.Touches n) :
    other.Describes profile n marks' := by
  rw [Describes, codeEq, commentEq, isCodeIff, touchesIff]
  exact describes

/-! ## A further piece -/

/-- A piece that disturbs no literal leaves every literal what it is. -/
theorem standing_put_iff {piece : Piece} (harmless : ∀ serial, piece.disturbs serial = false)
    (literal : Literal) :
    (inventory.put piece).Standing profile literal ↔ inventory.Standing profile literal := by
  rw [standing_of_pieces_eq rfl]
  simp [harmless]

/-- A piece that disturbs no literal leaves the code as it is. -/
theorem isCode_put_iff {piece : Piece} (harmless : ∀ serial, piece.disturbs serial = false)
    (n : Nat) : (inventory.put piece).IsCode profile n ↔ inventory.IsCode profile n := by
  have notCode : piece.isCode = false := by
    cases piece with
    | literal => rfl
    | plain c => exact harmless 0
    | charLiteral => exact harmless 0
    | comment => rfl
  unfold IsCode
  simp only [standing_put_iff harmless]
  simp only [put, List.mem_cons, exists_eq_or_imp, notCode, Bool.false_eq_true, and_false,
    false_or]

/-- A further piece on line `line` that disturbs every literal makes code of the lines
of those that lie on it. -/
theorem isCode_iff_of_disturbs (profile : Profile) {other : Inventory} {line n : Nat}
    {piece : Piece}
    (disturbs : ∀ literal ∈ inventory.literals, piece.disturbs literal.serial = true)
    (piecesEq : other.pieces = (line, piece) :: inventory.pieces)
    (literalsIff : ∀ literal, literal.Covers n →
      (literal ∈ other.literals ↔ literal ∈ inventory.literals))
    (earlier : n < line) :
    other.IsCode profile n ↔ inventory.IsCode profile n ∨
      ∃ literal ∈ inventory.literals, literal.Covers n ∧ literal.Covers line ∧
        inventory.Standing profile literal := by
  have onPieces : (∃ entry ∈ other.pieces, entry.1 = n ∧ entry.2.isCode = true) ↔
      ∃ entry ∈ inventory.pieces, entry.1 = n ∧ entry.2.isCode = true := by
    simp only [piecesEq, List.mem_cons, exists_eq_or_imp, Nat.ne_of_gt earlier, false_and,
      false_or]
  have standing {literal : Literal} (listed : literal ∈ inventory.literals) :
      other.Standing profile literal ↔
        inventory.Standing profile literal ∧ ¬ literal.Covers line := by
    rw [standing_of_pieces_eq piecesEq, disturbs literal listed]
    simp
  rw [IsCode, onPieces]
  constructor
  · rintro (piece | ⟨literal, listed, covers, notStanding⟩)
    · exact .inl (.inl piece)
    · have old := (literalsIff literal covers).mp listed
      rw [standing old] at notStanding
      by_cases stood : inventory.Standing profile literal
      · by_cases onLine : literal.Covers line
        · exact .inr ⟨literal, old, covers, onLine, stood⟩
        · exact absurd ⟨stood, onLine⟩ notStanding
      · exact .inl (.inr ⟨literal, old, covers, stood⟩)
  · rintro ((piece | ⟨literal, listed, covers, notStanding⟩) |
      ⟨literal, listed, covers, onLine, _⟩)
    · exact .inl piece
    · refine .inr ⟨literal, (literalsIff literal covers).mpr listed, covers, ?_⟩
      rw [standing listed]
      exact fun stands => notStanding stands.1
    · refine .inr ⟨literal, (literalsIff literal covers).mpr listed, covers, ?_⟩
      rw [standing listed]
      exact fun stands => stands.2 onLine

theorem touches_iff_of_pieces_eq {other : Inventory} {line n : Nat} {piece : Piece}
    (piecesEq : other.pieces = (line, piece) :: inventory.pieces)
    (literalsIff : ∀ literal, literal.Covers n →
      (literal ∈ other.literals ↔ literal ∈ inventory.literals)) :
    other.Touches n ↔ (line = n ∧ piece = .comment) ∨ inventory.Touches n := by
  have onLiterals : (∃ literal ∈ other.literals, literal.Covers n) ↔
      ∃ literal ∈ inventory.literals, literal.Covers n := by
    constructor
    · rintro ⟨literal, listed, covers⟩
      exact ⟨literal, (literalsIff literal covers).mp listed, covers⟩
    · rintro ⟨literal, listed, covers⟩
      exact ⟨literal, (literalsIff literal covers).mpr listed, covers⟩
  unfold Touches
  rw [onLiterals, piecesEq]
  simp only [List.mem_cons, exists_eq_or_imp, or_assoc]

/-! ## Order -/

/-- The pieces and the literals of an inventory lie where they have been read. -/
structure Ordered (inventory : Inventory) : Prop where
  pieces_le : ∀ entry ∈ inventory.pieces, entry.1 ≤ inventory.line
  literals_le : ∀ literal ∈ inventory.literals,
    literal.first ≤ literal.last ∧ literal.last ≤ inventory.line ∧
      literal.serial < inventory.literals.length
  /-- The literals on the current line are those that have a piece on it. -/
  onLine : ∀ serial, (inventory.line, .literal serial) ∈ inventory.pieces ↔
    ∃ literal ∈ inventory.literals, literal.serial = serial ∧ literal.last = inventory.line

/-- Everything in an inventory lies on lines that have ended. -/
structure Ended (inventory : Inventory) : Prop where
  pieces_lt : ∀ entry ∈ inventory.pieces, entry.1 < inventory.line
  literals_lt : ∀ literal ∈ inventory.literals,
    literal.first ≤ literal.last ∧ literal.last < inventory.line ∧
      literal.serial < inventory.literals.length

theorem Ended.ordered (ended : inventory.Ended) : inventory.Ordered := by
  constructor
  case pieces_le =>
    intro entry member
    exact Nat.le_of_lt (ended.pieces_lt entry member)
  case literals_le =>
    intro literal listed
    obtain ⟨firstLe, lastLt, serialLt⟩ := ended.literals_lt literal listed
    exact ⟨firstLe, Nat.le_of_lt lastLt, serialLt⟩
  case onLine =>
    intro serial
    constructor
    · intro member
      exact absurd (ended.pieces_lt _ member) (Nat.lt_irrefl _)
    · rintro ⟨literal, listed, _, last⟩
      exact absurd last (Nat.ne_of_lt (ended.literals_lt literal listed).2.1)

theorem Ended.not_covers (ended : inventory.Ended) {literal : Literal}
    (listed : literal ∈ inventory.literals) : ¬ literal.Covers inventory.line :=
  fun covers => Nat.not_le_of_lt (ended.literals_lt literal listed).2.1 covers.2

/-- Nothing lies on a line that has not begun. -/
theorem Ended.not_touches (ended : inventory.Ended) : ¬ inventory.Touches inventory.line := by
  rintro (⟨entry, member, same, _⟩ | ⟨literal, listed, covers⟩)
  · exact Nat.ne_of_lt (ended.pieces_lt entry member) same
  · exact ended.not_covers listed covers

theorem Ended.not_isCode (ended : inventory.Ended) :
    ¬ inventory.IsCode profile inventory.line := by
  rintro (⟨entry, member, same, _⟩ | ⟨literal, listed, covers, _⟩)
  · exact Nat.ne_of_lt (ended.pieces_lt entry member) same
  · exact ended.not_covers listed covers

theorem Ordered.covers_line_iff (ordered : inventory.Ordered) {literal : Literal}
    (listed : literal ∈ inventory.literals) :
    literal.Covers inventory.line ↔ literal.last = inventory.line := by
  obtain ⟨firstLe, lastLe, _⟩ := ordered.literals_le literal listed
  rw [Literal.Covers]
  omega

theorem Ordered.withMode (ordered : inventory.Ordered) (mode : Mode) :
    { inventory with mode := mode }.Ordered :=
  ⟨ordered.pieces_le, ordered.literals_le, ordered.onLine⟩

theorem Ordered.put (ordered : inventory.Ordered) {piece : Piece}
    (notLiteral : ∀ serial, piece ≠ .literal serial) : (inventory.put piece).Ordered := by
  constructor
  case pieces_le =>
    intro entry member
    rcases List.mem_cons.mp member with rfl | old
    · exact Nat.le_refl _
    · exact ordered.pieces_le entry old
  case literals_le => exact ordered.literals_le
  case onLine =>
    intro serial
    refine Iff.trans ?_ (ordered.onLine serial)
    simp [Inventory.put, (notLiteral serial).symm]

theorem Ordered.openLiteral (ordered : inventory.Ordered) (quote : Nat) :
    (inventory.openLiteral quote).Ordered := by
  constructor
  case pieces_le =>
    intro entry member
    rcases List.mem_cons.mp member with rfl | old
    · exact Nat.le_refl _
    · exact ordered.pieces_le entry old
  case literals_le =>
    intro literal member
    rcases List.mem_cons.mp member with rfl | old
    · exact ⟨Nat.le_refl _, Nat.le_refl _, Nat.lt_succ_self _⟩
    · obtain ⟨firstLe, lastLe, serialLt⟩ := ordered.literals_le literal old
      exact ⟨firstLe, lastLe, Nat.lt_succ_of_lt serialLt⟩
  case onLine =>
    intro serial
    simp only [Inventory.openLiteral, newLiteral, Inventory.put, List.mem_cons, Prod.mk.injEq,
      true_and,
      Piece.literal.injEq, exists_eq_or_imp, and_true, ordered.onLine serial, eq_comm]

theorem Ordered.endLine_ended (ordered : inventory.Ordered) : inventory.endLine.Ended := by
  constructor
  · intro entry member
    exact Nat.lt_succ_of_le (ordered.pieces_le entry member)
  · intro literal listed
    obtain ⟨firstLe, lastLe, serialLt⟩ := ordered.literals_le literal listed
    exact ⟨firstLe, Nat.lt_succ_of_le lastLe, serialLt⟩

/-! ## A literal that opens -/

theorem covers_newLiteral (inventory : Inventory) (quote : Nat) :
    (inventory.newLiteral quote).Covers inventory.line :=
  ⟨Nat.le_refl _, Nat.le_refl _⟩

/-- A new literal does not lie on the lines before. -/
theorem mem_literals_openLiteral_iff {quote n : Nat} {literal : Literal}
    (below : n < inventory.line) (covers : literal.Covers n) :
    literal ∈ (inventory.openLiteral quote).literals ↔ literal ∈ inventory.literals := by
  refine List.mem_cons.trans (or_iff_right ?_)
  rintro rfl
  exact Nat.not_le_of_lt below covers.1

/-- A new literal changes no other that does not lie on its line. -/
theorem Ordered.standing_openLiteral_iff (ordered : inventory.Ordered) {quote : Nat}
    {literal : Literal} (listed : literal ∈ inventory.literals)
    (elsewhere : literal.last ≠ inventory.line) :
    (inventory.openLiteral quote).Standing profile literal ↔
      inventory.Standing profile literal := by
  rw [standing_of_pieces_eq rfl, ordered.covers_line_iff listed]
  simp [elsewhere]

theorem Ordered.serial_ne_newLiteral (ordered : inventory.Ordered) (quote : Nat)
    {literal : Literal} (listed : literal ∈ inventory.literals) :
    literal.serial ≠ (inventory.newLiteral quote).serial :=
  Nat.ne_of_lt (ordered.literals_le literal listed).2.2

/-- A new literal is documentation just if it may be, and no code and no other literal
lies on its line. -/
theorem Ordered.standing_newLiteral_iff (ordered : inventory.Ordered) (quote : Nat) :
    (inventory.openLiteral quote).Standing profile (inventory.newLiteral quote) ↔
      (profile.quotes[quote]?).any (·.doc) = true ∧
        ¬ inventory.IsCode profile inventory.line ∧
        ∀ literal ∈ inventory.literals, literal.last ≠ inventory.line := by
  have covers := inventory.covers_newLiteral quote
  constructor
  · rintro ⟨mayBeDoc, undisturbed⟩
    -- A literal that lies on the line has a piece on it, which disturbs the new one.
    have alone (literal : Literal) (listed : literal ∈ inventory.literals) :
        literal.last ≠ inventory.line := by
      intro last
      have piece := (ordered.onLine literal.serial).mpr ⟨literal, listed, rfl, last⟩
      have same := undisturbed _ (List.mem_cons_of_mem _ piece) covers
      exact ordered.serial_ne_newLiteral quote listed (bne_eq_false_iff_eq.mp same)
    refine ⟨mayBeDoc, ?_, alone⟩
    rintro (⟨⟨line, piece⟩, member, rfl, code⟩ | ⟨literal, listed, onLine, _⟩)
    · have harmless := undisturbed _ (List.mem_cons_of_mem _ member) covers
      cases piece with
      | literal => contradiction
      | _ => exact absurd (code.symm.trans harmless) Bool.true_eq_false.mp
    · exact alone literal listed ((ordered.covers_line_iff listed).mp onLine)
  · rintro ⟨mayBeDoc, notCode, alone⟩
    refine ⟨mayBeDoc, ?_⟩
    intro entry member onEntry
    rcases List.mem_cons.mp member with rfl | old
    · simp [Piece.disturbs]
    · obtain ⟨line, piece⟩ := entry
      have onLine : line = inventory.line := Nat.le_antisymm onEntry.2 onEntry.1
      subst onLine
      cases piece with
      | literal serial =>
          obtain ⟨literal, listed, _, last⟩ := (ordered.onLine serial).mp old
          exact absurd last (alone literal listed)
      | _ => exact eq_false_of_ne_true fun disturbing => notCode (.inl ⟨_, old, rfl, disturbing⟩)

/-- Documentation that opens makes code of no line. -/
theorem Ordered.isCode_openLiteral_iff (ordered : inventory.Ordered) {quote : Nat}
    (stands : (inventory.openLiteral quote).Standing profile (inventory.newLiteral quote))
    (alone : ∀ literal ∈ inventory.literals, literal.last ≠ inventory.line) (n : Nat) :
    (inventory.openLiteral quote).IsCode profile n ↔ inventory.IsCode profile n := by
  have standing {literal : Literal} (listed : literal ∈ inventory.literals) :
      (inventory.openLiteral quote).Standing profile literal ↔
        inventory.Standing profile literal :=
    ordered.standing_openLiteral_iff listed (alone literal listed)
  constructor
  · rintro (⟨entry, member, same, code⟩ | ⟨literal, listed, covers, notStanding⟩)
    · rcases List.mem_cons.mp member with rfl | old
      · contradiction
      · exact .inl ⟨entry, old, same, code⟩
    · rcases List.mem_cons.mp listed with rfl | old
      · exact absurd stands notStanding
      · exact .inr ⟨literal, old, covers, mt (standing old).mpr notStanding⟩
  · rintro (⟨entry, member, same, code⟩ | ⟨literal, listed, covers, notStanding⟩)
    · exact .inl ⟨entry, List.mem_cons_of_mem _ member, same, code⟩
    · exact .inr ⟨literal, List.mem_cons_of_mem _ listed, covers,
        mt (standing listed).mp notStanding⟩

/-! ## A literal that goes on -/

theorem extendLiteral_eq {literal : Literal} {older : List Literal}
    (literalsEq : inventory.literals = literal :: older) :
    inventory.extendLiteral =
      { inventory.put (.literal literal.serial) with
        literals := { literal with last := inventory.line } :: older } := by
  rw [extendLiteral, literalsEq]

/-- A literal that goes on is what it was before: the new line holds only a piece of
its own. -/
theorem Ended.standing_extended (profile : Profile) {literal : Literal} {older : List Literal}
    (ended : inventory.Ended) (literalsEq : inventory.literals = literal :: older)
    (last : literal.last + 1 = inventory.line) :
    inventory.extendLiteral.Standing profile { literal with last := inventory.line } ↔
      inventory.Standing profile literal := by
  have piecesEq : inventory.extendLiteral.pieces =
      (inventory.line, .literal literal.serial) :: inventory.pieces := by
    rw [extendLiteral_eq literalsEq]
    rfl
  rw [standing_of_pieces_eq piecesEq]
  simp only [Piece.disturbs, bne_self_eq_false, implies_true, and_true]
  refine and_congr_right fun _ => forall₂_congr fun entry member => ?_
  have below := ended.pieces_lt entry member
  have coversIff : Literal.Covers { literal with last := inventory.line } entry.1 ↔
      literal.Covers entry.1 := by
    simp only [Literal.Covers]
    omega
  rw [coversIff]

/-- On the lines before, a literal that goes on changes nothing. -/
theorem Ended.describes_extended {literal : Literal} {older : List Literal} {n : Nat}
    {marks : Marks} (ended : inventory.Ended)
    (literalsEq : inventory.literals = literal :: older)
    (last : literal.last + 1 = inventory.line) (below : n < inventory.line)
    (describes : inventory.Describes profile n marks) :
    inventory.extendLiteral.Describes profile n marks := by
  have extendEq := extendLiteral_eq literalsEq
  have standing := ended.standing_extended profile literalsEq last
  have coversIff : Literal.Covers { literal with last := inventory.line } n ↔
      literal.Covers n := by
    simp only [Literal.Covers]
    omega
  have piecesEq : inventory.extendLiteral.pieces =
      (inventory.line, .literal literal.serial) :: inventory.pieces := by
    rw [extendEq]
    rfl
  have olderStanding (other : Literal) (member : other ∈ older) :
      inventory.extendLiteral.Standing profile other ↔ inventory.Standing profile other := by
    have notCovers := ended.not_covers (literalsEq ▸ List.mem_cons_of_mem literal member)
    rw [standing_of_pieces_eq piecesEq]
    simp [notCovers]
  have literalsEq' : inventory.extendLiteral.literals =
      { literal with last := inventory.line } :: older := by
    rw [extendEq]
  refine describes.congr rfl rfl (or_congr ?_ ?_) (or_congr ?_ ?_)
  · simp [piecesEq, Nat.ne_of_gt below]
  · rw [literalsEq', literalsEq]
    simp only [List.mem_cons, exists_eq_or_imp, coversIff, standing]
    refine or_congr_right (exists_congr fun other => and_congr_right fun member => ?_)
    rw [olderStanding other member]
  · simp [piecesEq, Nat.ne_of_gt below]
  · rw [literalsEq', literalsEq]
    simp only [List.mem_cons, exists_eq_or_imp, coversIff]

/-- A line that a literal goes on to is code just when the literal is no documentation. -/
theorem Ended.isCode_extended_iff (profile : Profile) {literal : Literal} {older : List Literal}
    (ended : inventory.Ended) (literalsEq : inventory.literals = literal :: older)
    (last : literal.last + 1 = inventory.line) :
    inventory.extendLiteral.IsCode profile inventory.line ↔
      ¬ inventory.Standing profile literal := by
  have listed : literal ∈ inventory.literals := literalsEq ▸ List.mem_cons_self
  have covers : Literal.Covers { literal with last := inventory.line } inventory.line := by
    obtain ⟨firstLe, _⟩ := ended.literals_lt literal listed
    simp only [Literal.Covers]
    omega
  rw [← ended.standing_extended profile literalsEq last, extendLiteral_eq literalsEq]
  constructor
  · rintro (⟨entry, member, same, code⟩ | ⟨other, listed, covers, notStanding⟩)
    · rcases List.mem_cons.mp member with rfl | old
      · contradiction
      · exact absurd same (Nat.ne_of_lt (ended.pieces_lt entry old))
    · rcases List.mem_cons.mp listed with rfl | old
      · exact notStanding
      · exact absurd covers (ended.not_covers (literalsEq ▸ List.mem_cons_of_mem _ old))
  · intro notStanding
    exact .inr ⟨_, List.mem_cons_self, covers, notStanding⟩

theorem Ended.touches_extended {literal : Literal} {older : List Literal}
    (ended : inventory.Ended) (literalsEq : inventory.literals = literal :: older)
    (last : literal.last + 1 = inventory.line) :
    inventory.extendLiteral.Touches inventory.line := by
  obtain ⟨firstLe, _⟩ := ended.literals_lt literal (literalsEq ▸ List.mem_cons_self)
  rw [extendLiteral_eq literalsEq]
  refine .inr ⟨_, List.mem_cons_self, ?_, Nat.le_refl _⟩
  simp only
  omega

theorem Ended.extendLiteral_ordered {literal : Literal} {older : List Literal}
    (ended : inventory.Ended) (literalsEq : inventory.literals = literal :: older)
    (last : literal.last + 1 = inventory.line) : inventory.extendLiteral.Ordered := by
  have literalsLt := ended.literals_lt
  rw [literalsEq] at literalsLt
  rw [extendLiteral_eq literalsEq]
  constructor
  case pieces_le =>
    intro entry member
    rcases List.mem_cons.mp member with rfl | old
    · exact Nat.le_refl _
    · exact Nat.le_of_lt (ended.pieces_lt entry old)
  case literals_le =>
    intro other listed
    rcases List.mem_cons.mp listed with rfl | old
    · obtain ⟨firstLe, _, serialLt⟩ := literalsLt literal List.mem_cons_self
      refine ⟨?_, Nat.le_refl _, serialLt⟩
      simp only
      omega
    · obtain ⟨firstLe, lastLt, serialLt⟩ := literalsLt other (List.mem_cons_of_mem _ old)
      exact ⟨firstLe, Nat.le_of_lt lastLt, serialLt⟩
  case onLine =>
    intro serial
    constructor
    · intro member
      rcases List.mem_cons.mp member with same | old
      · cases same
        exact ⟨_, List.mem_cons_self, rfl, rfl⟩
      · exact absurd (ended.pieces_lt _ old) (Nat.lt_irrefl _)
    · rintro ⟨other, listed, rfl, onLine⟩
      rcases List.mem_cons.mp listed with rfl | old
      · exact List.mem_cons_self
      · have lastLt := (literalsLt other (List.mem_cons_of_mem _ old)).2.1
        exact absurd onLine (Nat.ne_of_lt lastLt)

end Inventory

end LineTally
