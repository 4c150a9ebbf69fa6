import LineTally.Proofs.Line.Lexeme

/-!
# The scanner observes lexemes

A step of the scanner does two things: it finds the lexeme at its place, and it
takes note of it.  Where the next step begins depends on the mode alone, so a
scan of a line is a fold over the lexemes of the line (`run_eq_foldl_observe`).
What every lexeme preserves is then preserved by a whole line.
-/

namespace LineTally

/-- The closer of a literal has been read. -/
def Docstring.close : Docstring → Docstring
  | .opened first => .closed first
  | doc => doc

theorem Docstring.eq_closed_or_ne (doc : Docstring) :
    (∃ first, doc = .closed first) ∨ ∀ first, doc ≠ .closed first := by
  cases doc with
  | closed first => exact .inl ⟨first, rfl⟩
  | none => exact .inr fun _ => Docstring.noConfusion
  | opened first => exact .inr fun _ => Docstring.noConfusion

/-- What a move leaves of the text. -/
def Move.remaining? : Move → Text → Option Text
  | .advance width, text => Text.dropBytes? width text
  | .endOfLine, _ => some []

namespace LineScan

/-- Settle a literal that has been closed on the current line. -/
def settle (asCode : Bool) (scan : LineScan) : LineScan :=
  match scan.doc with
  | .closed first => scan.resolveDoc asCode first
  | _ => scan

theorem settle_of_closed {scan : LineScan} {first : Nat} (closed : scan.doc = .closed first)
    (asCode : Bool) : scan.settle asCode = scan.resolveDoc asCode first := by
  rw [settle, closed]

theorem settle_of_not_closed {scan : LineScan} (notClosed : ∀ first, scan.doc ≠ .closed first)
    (asCode : Bool) : scan.settle asCode = scan := by
  rw [settle]
  split
  · next first closed => exact absurd closed (notClosed first)
  · rfl

theorem settle_doc_ne_closed (scan : LineScan) (asCode : Bool) (first : Nat) :
    (scan.settle asCode).doc ≠ .closed first := by
  rw [settle]
  split
  · exact Docstring.noConfusion
  · next notClosed => exact notClosed first

@[simp]
theorem line_settle (scan : LineScan) (asCode : Bool) : (scan.settle asCode).line = scan.line := by
  rw [settle]
  split <;> rfl

@[simp]
theorem mode_settle (scan : LineScan) (asCode : Bool) : (scan.settle asCode).mode = scan.mode := by
  rw [settle]
  split <;> rfl

theorem markCode_eq_settle (scan : LineScan) :
    scan.markCode = { scan.settle true with current.code := true } :=
  rfl

/-- Leave the line as it is. -/
def leave (scan : LineScan) : Scanner :=
  { mode := scan.mode
    line := scan.line + 1
    marks := scan.current :: scan.past
    regionLine := scan.regionLine
    doc := scan.doc }

theorem endLine_eq_settle (scan : LineScan) : scan.endLine = (scan.settle false).leave :=
  rfl

/-- Take note of a lexeme. -/
def observe (profile : Profile) (scan : LineScan) (lexeme : Lexeme) : LineScan :=
  match lexeme with
  | .plain c => if isBlank c then scan else scan.markCode
  | .charLiteral => scan.markCode
  | .lineComment => { scan with current.comment := true }
  | .blockOpener pair =>
      { scan with
        current.comment := true
        mode := .block pair 1
        regionLine := scan.line }
  | .quoteOpener quote => scan.openQuote profile quote
  | .quoteCloser => { scan with mode := .code, doc := scan.doc.close }
  | .nestedOpener => { scan with mode := scan.mode.after .nestedOpener }
  | .blockCloser => { scan with mode := scan.mode.after .blockCloser }
  | .blockText | .literalText => scan

theorem mode_observe {profile : Profile} {scan : LineScan} {lexeme : Lexeme}
    (fits : lexeme.Fits profile scan.mode) :
    (scan.observe profile lexeme).mode = scan.mode.after lexeme := by
  rcases scan with ⟨mode, line, past, current, regionLine, doc⟩
  cases fits with
  | plain c =>
      simp only [observe]
      split
      · rfl
      · exact mode_markCode _
  | charLiteral => exact mode_markCode _
  | _ => rfl

/-! ## One step -/

private theorem dropBytes?_firstWidth (c : Char) (cs : Text) :
    Text.dropBytes? (Text.firstWidth (c :: cs)) (c :: cs) = some cs :=
  Text.dropBytes?_append [c] cs

private theorem dropBytes?_escaped (c : Char) (cs : Text) :
    Text.dropBytes? (Text.firstWidth (c :: cs) + Text.firstWidth cs) (c :: cs) =
      some (cs.drop 1) := by
  cases cs with
  | nil => exact Text.dropBytes?_append [c] []
  | cons d ds => exact Text.dropBytes?_append [c, d] ds

private theorem dropBytes?_delimiter {delimiter text : Text}
    (stands : delimiter.isPrefixOf text = true) :
    Text.dropBytes? delimiter.byteSize text = some (text.drop delimiter.length) := by
  obtain ⟨rest, rfl⟩ := List.isPrefixOf_iff_prefix.mp stands
  rw [Text.dropBytes?_append, List.drop_left]

theorem stepCode_eq_observe (profile : Profile) (scan : LineScan) (c : Char) (cs : Text) :
    ∃ move, scan.stepCode profile (c :: cs) =
        (scan.observe profile (profile.lexCode c cs).1, move) ∧
      move.remaining? (c :: cs) = some (profile.lexCode c cs).2 := by
  have moved {width : Nat} {opener : Opener}
      (found : profile.longestOpener (c :: cs) = some (width, opener)) :
      Text.dropBytes? width (c :: cs) =
        some ((Text.dropBytes? width (c :: cs)).getD []) := by
    obtain ⟨opened, rest, _, _, dropped⟩ := Profile.dropBytes?_of_longestOpener found
    rw [dropped, Option.getD_some]
  unfold stepCode Profile.lexCode
  cases found : profile.longestOpener (c :: cs) with
  | none => exact ⟨_, rfl, dropBytes?_firstWidth c cs⟩
  | some best =>
      obtain ⟨width, opener⟩ := best
      cases opener with
      | line => exact ⟨.endOfLine, rfl, rfl⟩
      | block => exact ⟨.advance width, rfl, moved found⟩
      | quote => exact ⟨.advance width, rfl, moved found⟩
      | charLiteral => exact ⟨.advance width, rfl, moved found⟩

theorem stepBlock_eq_observe {profile : Profile} {pair depth : Nat} {scan : LineScan}
    {delimiters : BlockComment} (inside : scan.mode = .block pair depth)
    (listed : profile.blockComments[pair]? = some delimiters)
    (opens : delimiters.nestable = true → delimiters.opener ≠ []) (c : Char) (cs : Text) :
    ∃ move, scan.stepBlock profile pair depth (c :: cs) =
        (scan.observe profile (Profile.lexBlock delimiters c cs).1, move) ∧
      move.remaining? (c :: cs) = some (Profile.lexBlock delimiters c cs).2 := by
  rcases scan with ⟨mode, line, past, current, regionLine, doc⟩
  cases inside
  have nests : (delimiters.nestable && !delimiters.opener.isEmpty) = delimiters.nestable := by
    simpa using opens
  unfold stepBlock Profile.lexBlock
  simp only [listed, nests]
  split
  · next closes => exact ⟨.advance _, rfl, dropBytes?_delimiter closes⟩
  · split
    · next nests =>
        rw [Bool.and_eq_true] at nests
        exact ⟨.advance _, rfl, dropBytes?_delimiter nests.2⟩
    · exact ⟨.advance _, rfl, dropBytes?_firstWidth c cs⟩

theorem escapes_iff {escape : Option Char} {c : Char} {cs : Text} :
    (escape.isSome && decide ((c :: cs).head? = escape)) = true ↔ escape = some c := by
  rw [Bool.and_eq_true, decide_eq_true_iff, List.head?_cons]
  exact ⟨fun both => both.2.symm, fun same => ⟨by rw [same]; rfl, same.symm⟩⟩

theorem stepString_eq_observe {profile : Profile} {quote : Nat} {scan : LineScan}
    {literal : Quote} (inside : scan.mode = .string quote)
    (listed : profile.quotes[quote]? = some literal) (c : Char) (cs : Text) :
    ∃ move, scan.stepString profile quote (c :: cs) =
        (scan.observe profile (Profile.lexString literal c cs).1, move) ∧
      move.remaining? (c :: cs) = some (Profile.lexString literal c cs).2 := by
  rcases scan with ⟨mode, line, past, current, regionLine, doc⟩
  cases inside
  unfold stepString Profile.lexString
  simp only [listed, escapes_iff]
  split
  · exact ⟨.advance _, rfl, dropBytes?_escaped c cs⟩
  · split
    · next closes => exact ⟨.advance _, by cases doc <;> rfl, dropBytes?_delimiter closes⟩
    · exact ⟨.advance _, rfl, dropBytes?_firstWidth c cs⟩

/-- A step takes note of the next lexeme and moves on to the text behind it. -/
theorem step_eq_observe {profile : Profile} {scan : LineScan}
    (valid : scan.mode.Valid profile) (c : Char) (cs : Text) :
    ∃ move, scan.step profile (c :: cs) =
        (scan.observe profile (profile.lex scan.mode c cs).1, move) ∧
      move.remaining? (c :: cs) = some (profile.lex scan.mode c cs).2 := by
  unfold step Profile.lex
  cases inside : scan.mode with
  | code => exact scan.stepCode_eq_observe profile c cs
  | block pair depth =>
      rw [inside] at valid
      obtain ⟨delimiters, listed, opens, _⟩ := valid
      simp only [listed]
      exact stepBlock_eq_observe inside listed (fun _ => opens) c cs
  | string quote =>
      rw [inside] at valid
      obtain ⟨literal, listed, _⟩ := valid
      simp only [listed]
      exact stepString_eq_observe inside listed c cs

/-! ## A whole line -/

/-- A step that moves on, or that closes a region, is followed by the next one. -/
theorem run_cons {profile : Profile} {scan next : LineScan} {move : Move} {c : Char}
    {cs rest : Text} (taken : scan.step profile (c :: cs) = (next, move))
    (moved : move.remaining? (c :: cs) = some rest)
    (progress : rest.length < (c :: cs).length ∨ next.mode.weight < scan.mode.weight) :
    scan.run profile (c :: cs) = next.run profile rest := by
  rw [run]
  split
  · next other taken' =>
      rw [taken] at taken'
      cases taken'
      cases moved
      rw [run]
  · next _ width taken' =>
      rw [taken] at taken'
      cases taken'
      simp only [Move.remaining?] at moved
      have advances : 0 < width ∨ next.mode.weight < scan.mode.weight := by
        rcases progress with shorter | fewer
        · refine .inl (Nat.pos_of_ne_zero ?_)
          rintro rfl
          rw [Text.dropBytes?_zero, Option.some.injEq] at moved
          rw [moved] at shorter
          exact Nat.lt_irrefl _ shorter
        · exact .inr fewer
      split
      · next dropped =>
          rw [moved] at dropped
          contradiction
      · next remaining dropped =>
          rw [moved] at dropped
          cases dropped
          rw [dif_pos advances]

theorem weight_after_lt {profile : Profile} {mode : Mode} {lexeme : Lexeme}
    (valid : mode.Valid profile) (fits : lexeme.Fits profile mode)
    (closes : (mode.after lexeme).closers < mode.closers) :
    (mode.after lexeme).weight < mode.weight := by
  cases fits with
  | plain => exact closes
  | charLiteral => exact closes
  | lineComment => exact closes
  | blockOpener => simp [Mode.after, Mode.closers] at closes
  | quoteOpener => simp [Mode.after, Mode.closers] at closes
  | blockText => exact absurd closes (Nat.lt_irrefl _)
  | nestedOpener depth =>
      simp only [Mode.after, Mode.closers] at closes
      omega
  | blockCloser pair depth =>
      obtain ⟨_, _, _, positive, _⟩ := valid
      simp only [Mode.after]
      split
      · exact positive
      · exact Nat.sub_lt positive Nat.one_pos
  | literalText => exact absurd closes (Nat.lt_irrefl _)
  | quoteCloser => exact Nat.one_pos

/-- A scan of a line takes note of its lexemes one after the other, up to the end of
the line. -/
theorem run_eq_foldl_observe {profile : Profile} {scan : LineScan}
    (valid : scan.mode.Valid profile) (text : Text) :
    scan.run profile text =
      (profile.lexemes scan.mode text).foldl (observe profile) scan := by
  generalize same : scan.mode = mode at valid
  fun_induction Profile.lexemes profile mode text generalizing scan with
  | case1 mode =>
      rw [run]
      rfl
  | case2 mode c cs inductionHypothesis =>
      have fits := profile.lex_fits mode c cs
      subst same
      obtain ⟨move, taken, moved⟩ := step_eq_observe valid c cs
      have leads := mode_observe fits
      rw [run_cons taken moved ?_, List.foldl_cons]
      · exact inductionHypothesis leads (valid.after fits)
      · rcases profile.lex_progress scan.mode c cs with shorter | ⟨_, closes⟩
        · exact .inl shorter
        · rw [leads]
          exact .inr (weight_after_lt valid fits closes)

/-- The scan of a line goes on behind its first lexeme. -/
theorem run_cons_observe {profile : Profile} {scan : LineScan}
    (valid : scan.mode.Valid profile) (c : Char) (cs : Text) :
    scan.run profile (c :: cs) =
      (scan.observe profile (profile.lex scan.mode c cs).1).run profile
        (profile.lex scan.mode c cs).2 := by
  have fits := profile.lex_fits scan.mode c cs
  have leads := mode_observe fits
  rw [run_eq_foldl_observe valid, run_eq_foldl_observe (leads ▸ valid.after fits), leads,
    Profile.lexemes, List.foldl_cons]

/-- What every lexeme preserves between a scan and any other account of the lexemes
is preserved by a whole line. -/
theorem related_run {β : Type} {profile : Profile} {related : LineScan → β → Prop}
    {note : β → Lexeme → β}
    (step : ∀ {scan account lexeme}, lexeme.Fits profile scan.mode →
      scan.mode.Valid profile → related scan account →
        related (scan.observe profile lexeme) (note account lexeme))
    {scan : LineScan} {account : β} (valid : scan.mode.Valid profile)
    (start : related scan account) (text : Text) :
    related (scan.run profile text)
      ((profile.lexemes scan.mode text).foldl note account) := by
  rw [run_eq_foldl_observe valid]
  generalize same : scan.mode = mode at valid
  fun_induction Profile.lexemes profile mode text generalizing scan account with
  | case1 => exact start
  | case2 mode c cs inductionHypothesis =>
      have fits := profile.lex_fits mode c cs
      subst same
      exact inductionHypothesis (step fits valid start) (mode_observe fits) (valid.after fits)

/-- What every lexeme preserves is preserved by a whole line. -/
theorem run_induction {profile : Profile} {motive : LineScan → Prop}
    (step : ∀ {scan lexeme}, lexeme.Fits profile scan.mode → scan.mode.Valid profile →
      motive scan → motive (scan.observe profile lexeme))
    {scan : LineScan} (valid : scan.mode.Valid profile) (start : motive scan) (text : Text) :
    motive (scan.run profile text) :=
  @related_run Unit profile (fun scan _ => motive scan) (fun account _ => account)
    (fun fits valid holds => step fits valid holds) scan () valid start text

end LineScan

end LineTally
