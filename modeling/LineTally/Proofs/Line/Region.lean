import LineTally.Line.Numbering
import LineTally.Proofs.Line.Place

/-!
# Regions

A region is a block comment or a string literal.  A scan leaves code only at an opener
and comes back only at a closer, so a scan that ends in a region has been in it all the
time, or it has entered it at an opener and has been in it since then
(`stays_or_opens`).  Openers that nest lead deeper into the same region.
-/

namespace LineTally

/-- A block comment between one pair of delimiters, however deep it nests, or a string
literal in one kind of quotes. -/
inductive Region where
  | block (pair : Nat)
  | string (quote : Nat)
deriving DecidableEq, Repr

namespace Region

def kind : Region → RegionKind
  | .block _ => .block
  | .string _ => .string

/-- The delimiter that opens the region. -/
def opener? (profile : Profile) : Region → Option Text
  | .block pair => (profile.blockComments[pair]?).map (·.opener)
  | .string quote => (profile.quotes[quote]?).map (·.delimiter)

end Region

namespace Mode

/-- The region that the scanner is in. -/
def region? : Mode → Option Region
  | .code => none
  | .block pair _ => some (.block pair)
  | .string quote => some (.string quote)

@[simp]
theorem region?_eq_none_iff {mode : Mode} : mode.region? = none ↔ mode = .code := by
  cases mode <;> simp [region?]

theorem ne_code_of_region?_eq_some {mode : Mode} {region : Region}
    (inside : mode.region? = some region) : mode ≠ .code := by
  rintro rfl
  contradiction

/-- The opener of a region that has been entered is known, and it is not empty. -/
theorem Valid.exists_opener {profile : Profile} {mode : Mode} {region : Region}
    (valid : mode.Valid profile) (inside : mode.region? = some region) :
    ∃ opener, region.opener? profile = some opener ∧ opener ≠ [] := by
  cases mode with
  | code => contradiction
  | block pair depth =>
      cases inside
      obtain ⟨delimiters, listed, ne, _⟩ := valid
      exact ⟨delimiters.opener, congrArg (Option.map _) listed, ne⟩
  | string quote =>
      cases inside
      obtain ⟨literal, listed, ne⟩ := valid
      exact ⟨literal.delimiter, congrArg (Option.map _) listed, ne⟩

/-- From one region no lexeme leads straight into another. -/
theorem region?_eq_of_after {profile : Profile} {mode : Mode} {lexeme : Lexeme}
    {region : Region} (fits : lexeme.Fits profile mode) (notCode : mode ≠ .code)
    (inside : (mode.after lexeme).region? = some region) : mode.region? = some region := by
  cases fits with
  | plain => exact absurd rfl notCode
  | charLiteral => exact absurd rfl notCode
  | lineComment => exact absurd rfl notCode
  | blockOpener => exact absurd rfl notCode
  | quoteOpener => exact absurd rfl notCode
  | blockText => exact inside
  | nestedOpener => exact inside
  | blockCloser =>
      simp only [after] at inside
      split at inside
      · contradiction
      · exact inside
  | literalText => exact inside
  | quoteCloser => contradiction

end Mode

/-- A lexeme that leads from code into a region is the opener of that region. -/
theorem Profile.lexCode_eq_opener {profile : Profile} {c : Char} {cs : Text} {region : Region}
    (inside : (Mode.code.after (profile.lexCode c cs).1).region? = some region) :
    ∃ opener, region.opener? profile = some opener ∧
      c :: cs = opener ++ (profile.lexCode c cs).2 := by
  unfold lexCode at inside ⊢
  cases found : profile.longestOpener (c :: cs) with
  | none => simp [found, Mode.after, Mode.region?] at inside
  | some best =>
      obtain ⟨width, opener⟩ := best
      obtain ⟨opened, rest, opens, whole, dropped⟩ := dropBytes?_of_longestOpener found
      rw [found] at inside
      cases opens with
      | line => contradiction
      | charLiteral => contradiction
      | block listed =>
          cases inside
          refine ⟨_, congrArg (Option.map _) listed, ?_⟩
          simp only [dropped, Option.getD_some]
          exact whole
      | quote listed =>
          cases inside
          refine ⟨_, congrArg (Option.map _) listed, ?_⟩
          simp only [dropped, Option.getD_some]
          exact whole

namespace Place

/-- From this place to the end of the line the scanner is in the region. -/
def StaysIn (profile : Profile) (region : Region) (place : Place) : Prop :=
  ∀ later, Reaches profile place later → later.scan.mode.region? = some region

/-- At this place the scanner enters the region from code, and it stays there up to the end
of the line. -/
def OpensLast (profile : Profile) (region : Region) (opener : Text) (place : Place) : Prop :=
  ∃ rest next, place.rest = opener ++ rest ∧ place.scan.mode = .code ∧
    Next profile place ⟨next, rest⟩ ∧ StaysIn profile region ⟨next, rest⟩

end Place

namespace LineScan

variable {profile : Profile} {scan : LineScan}

@[simp]
theorem regionLine_settle (scan : LineScan) (asCode : Bool) :
    (scan.settle asCode).regionLine = scan.regionLine := by
  rw [settle]
  split <;> rfl

@[simp]
theorem regionLine_markCode (scan : LineScan) : scan.markCode.regionLine = scan.regionLine :=
  regionLine_settle scan true

@[simp]
theorem line_observe (profile : Profile) (scan : LineScan) (lexeme : Lexeme) :
    (scan.observe profile lexeme).line = scan.line := by
  cases lexeme with
  | plain c =>
      simp only [observe]
      split
      · rfl
      · exact line_markCode scan
  | charLiteral => exact line_markCode scan
  | quoteOpener quote => exact line_openQuote profile quote scan
  | _ => rfl

/-- Inside a region the line of its opener is kept. -/
theorem regionLine_observe {lexeme : Lexeme} (fits : lexeme.Fits profile scan.mode)
    (notCode : scan.mode ≠ .code) :
    (scan.observe profile lexeme).regionLine = scan.regionLine := by
  generalize scan.mode = mode at fits notCode
  cases fits with
  | plain => exact absurd rfl notCode
  | charLiteral => exact absurd rfl notCode
  | lineComment => exact absurd rfl notCode
  | blockOpener => exact absurd rfl notCode
  | quoteOpener => exact absurd rfl notCode
  | _ => rfl

@[simp]
theorem regionLine_openQuote (profile : Profile) (quote : Nat) (scan : LineScan) :
    (scan.openQuote profile quote).regionLine = scan.line := by
  simp only [openQuote]
  split
  · rfl
  · exact line_markCode scan

/-- When a region opens, its line is the current one. -/
theorem regionLine_observe_opener {lexeme : Lexeme} (fits : lexeme.Fits profile scan.mode)
    (inCode : scan.mode = .code) (notCode : (scan.observe profile lexeme).mode ≠ .code) :
    (scan.observe profile lexeme).regionLine = scan.line := by
  rw [mode_observe fits] at notCode
  rw [inCode] at fits notCode
  cases fits with
  | plain => exact absurd rfl notCode
  | charLiteral => exact absurd rfl notCode
  | lineComment => exact absurd rfl notCode
  | blockOpener => rfl
  | quoteOpener => exact regionLine_openQuote ..

/-- Where the scanner leaves code for a region and stays there, the opener of the region
stands. -/
theorem exists_opensLast {region : Region} (valid : scan.mode.Valid profile)
    (inCode : scan.mode = .code) {c : Char} {cs : Text}
    (stays : Place.StaysIn profile region
      ⟨scan.observe profile (profile.lex scan.mode c cs).1, (profile.lex scan.mode c cs).2⟩) :
    ∃ opener, region.opener? profile = some opener ∧
      Place.OpensLast profile region opener ⟨scan, c :: cs⟩ := by
  have inside := stays _ .refl
  rw [mode_observe (profile.lex_fits scan.mode c cs)] at inside
  have lexEq : profile.lex scan.mode c cs = profile.lexCode c cs := by
    rw [inCode]
    rfl
  rw [lexEq, inCode] at inside
  obtain ⟨opener, listed, whole⟩ := Profile.lexCode_eq_opener inside
  rw [← lexEq] at whole
  exact ⟨opener, listed, _, _, whole, inCode, (Place.next_iff valid).mpr rfl, stays⟩

/-- A scan that ends in a region has been in it from the start, or it has entered it at its
opener and has not left it since; and the line of the region is kept or is the current
one. -/
theorem stays_or_opens {region : Region} (valid : scan.mode.Valid profile) (text : Text)
    (ended : (scan.run profile text).mode.region? = some region) :
    (Place.StaysIn profile region ⟨scan, text⟩ ∧
      (scan.run profile text).regionLine = scan.regionLine) ∨
    ((∃ opener place, region.opener? profile = some opener ∧
        Place.Reaches profile ⟨scan, text⟩ place ∧
        Place.OpensLast profile region opener place) ∧
      (scan.run profile text).regionLine = scan.line) := by
  generalize same : scan.mode = mode at valid
  fun_induction Profile.lexemes profile mode text generalizing scan with
  | case1 =>
      rw [run] at ended ⊢
      refine .inl ⟨fun later reached => ?_, rfl⟩
      rw [Place.reaches_nil_iff.mp reached]
      exact ended
  | case2 mode c cs inductionHypothesis =>
      subst same
      have fits := profile.lex_fits scan.mode c cs
      have leads := mode_observe fits
      rw [run_cons_observe valid] at ended ⊢
      rcases inductionHypothesis ended leads (valid.after fits) with
        ⟨stays, regionLine⟩ | ⟨⟨opener, place, listed, reached, opens⟩, regionLine⟩
      · have inside := stays _ .refl
        by_cases inCode : scan.mode = .code
        · right
          obtain ⟨opener, listed, opensLast⟩ := exists_opensLast valid inCode stays
          refine ⟨⟨opener, ⟨scan, c :: cs⟩, listed, .refl, opensLast⟩, ?_⟩
          rw [regionLine]
          exact regionLine_observe_opener fits inCode (Mode.ne_code_of_region?_eq_some inside)
        · left
          rw [leads] at inside
          refine ⟨fun later reached => ?_, regionLine.trans (regionLine_observe fits inCode)⟩
          rcases (Place.reaches_cons_iff valid).mp reached with rfl | behind
          · exact Mode.region?_eq_of_after fits inCode inside
          · exact stays later behind
      · right
        refine ⟨⟨opener, place, listed, ?_, opens⟩, regionLine.trans (line_observe ..)⟩
        exact (Place.reaches_cons_iff valid).mpr (.inr reached)

end LineScan

end LineTally
