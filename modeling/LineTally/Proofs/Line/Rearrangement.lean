import LineTally.Line.Classification
import LineTally.Proofs.Language.Rearrangement
import LineTally.Proofs.Line.Splitting

/-!
# A profile is a set of delimiters

Where two profiles list the same delimiters in different orders, a scanner meets the same
lexemes with either of them, under other indices.  It takes the same note of them, so after
every line it is in the same state under other indices (`Leads.feedLines_scanner`), and what is
known of a file in the end does not mention indices at all.
-/

namespace LineTally

namespace Reindexing

/-- A lexeme under its other index. -/
def lexeme (reindexing : Reindexing) : Lexeme → Lexeme
  | .blockOpener pair => .blockOpener (reindexing.blocks pair)
  | .quoteOpener quote => .quoteOpener (reindexing.quotes quote)
  | lexeme => lexeme

/-- A mode under its other index. -/
def mode (reindexing : Reindexing) : Mode → Mode
  | .code => .code
  | .block pair depth => .block (reindexing.blocks pair) depth
  | .string quote => .string (reindexing.quotes quote)

theorem mode_eq_code_iff {reindexing : Reindexing} {mode : Mode} :
    reindexing.mode mode = .code ↔ mode = .code := by
  cases mode <;> simp [Reindexing.mode]

/-- A scan with its region under its other index. -/
def scan (reindexing : Reindexing) (scan : LineScan) : LineScan :=
  { scan with mode := reindexing.mode scan.mode }

/-- A scanner with its region under its other index. -/
def scanner (reindexing : Reindexing) (scanner : Scanner) : Scanner :=
  { scanner with mode := reindexing.mode scanner.mode }

variable {reindexing : Reindexing} {first second : Profile}

theorem Leads.valid_mode (leads : reindexing.Leads first second) {mode : Mode}
    (valid : mode.Valid first) : (reindexing.mode mode).Valid second := by
  cases mode with
  | code => trivial
  | block pair depth =>
      obtain ⟨delimiters, listed, rest⟩ := valid
      exact ⟨delimiters, (leads.blocks pair).trans listed, rest⟩
  | string quote =>
      obtain ⟨literal, listed, ne⟩ := valid
      exact ⟨literal, (leads.quotes quote).trans listed, ne⟩

theorem mode_after (mode : Mode) (lexeme : Lexeme) :
    reindexing.mode (mode.after lexeme) =
      (reindexing.mode mode).after (reindexing.lexeme lexeme) := by
  cases lexeme with
  | nestedOpener => cases mode <;> rfl
  | blockCloser =>
      cases mode with
      | block pair depth => exact apply_ite reindexing.mode _ _ _
      | _ => rfl
  | _ => cases mode <;> rfl

/-! ## Lexemes -/

theorem Leads.lexCode_eq (leads : reindexing.Leads first second) (distinct : first.Distinct)
    (c : Char) (cs : Text) :
    second.lexCode c cs =
      (reindexing.lexeme (first.lexCode c cs).1, (first.lexCode c cs).2) := by
  unfold Profile.lexCode
  rw [Profile.longestOpener_of_leads leads distinct]
  cases first.longestOpener (c :: cs) with
  | none => rfl
  | some best =>
      obtain ⟨width, opener⟩ := best
      cases opener <;> rfl

/-- The same lexeme is met, under its other index. -/
theorem Leads.lex_eq (leads : reindexing.Leads first second) (distinct : first.Distinct)
    (mode : Mode) (c : Char) (cs : Text) :
    second.lex (reindexing.mode mode) c cs =
      (reindexing.lexeme (first.lex mode c cs).1, (first.lex mode c cs).2) := by
  cases mode with
  | code => exact leads.lexCode_eq distinct c cs
  | block pair depth =>
      simp only [Profile.lex, Reindexing.mode, leads.blocks]
      split
      · rw [Profile.lexBlock]
        split
        · rfl
        · split <;> rfl
      · rfl
  | string quote =>
      simp only [Profile.lex, Reindexing.mode, leads.quotes]
      split
      · rw [Profile.lexString]
        split
        · rfl
        · split <;> rfl
      · rfl

/-- Every line falls into the same lexemes, under their other indices. -/
theorem Leads.lexemes_eq (leads : reindexing.Leads first second) (distinct : first.Distinct)
    (mode : Mode) (text : Text) :
    second.lexemes (reindexing.mode mode) text =
      (first.lexemes mode text).map reindexing.lexeme := by
  fun_induction Profile.lexemes first mode text with
  | case1 => rw [Profile.lexemes, List.map_nil]
  | case2 mode c cs inductionHypothesis =>
      rw [Profile.lexemes, leads.lex_eq distinct, ← mode_after, inductionHypothesis, List.map_cons]

/-! ## Lines -/

theorem scan_markCode (scan : LineScan) :
    (reindexing.scan scan).markCode = reindexing.scan scan.markCode := by
  rcases scan with ⟨mode, line, past, current, regionLine, doc⟩
  cases doc <;> rfl

theorem Leads.openQuote_scan (leads : reindexing.Leads first second) (quote : Nat)
    (scan : LineScan) :
    (reindexing.scan scan).openQuote second (reindexing.quotes quote) =
      reindexing.scan (scan.openQuote first quote) := by
  have candidateIff : (reindexing.scan scan).Candidate second (reindexing.quotes quote) ↔
      scan.Candidate first quote := by
    rw [LineScan.Candidate, leads.quotes]
    exact Iff.rfl
  by_cases candidate : scan.Candidate first quote
  · rw [LineScan.openQuote_of_candidate candidate,
      LineScan.openQuote_of_candidate (candidateIff.mpr candidate)]
    rfl
  · rw [LineScan.openQuote_of_not_candidate candidate,
      LineScan.openQuote_of_not_candidate (mt candidateIff.mp candidate), scan_markCode]
    rfl

/-- The same note is taken of a lexeme under its other index. -/
theorem Leads.observe_scan (leads : reindexing.Leads first second) (scan : LineScan)
    (lexeme : Lexeme) :
    (reindexing.scan scan).observe second (reindexing.lexeme lexeme) =
      reindexing.scan (scan.observe first lexeme) := by
  cases lexeme with
  | plain c =>
      simp only [Reindexing.lexeme, LineScan.observe]
      split
      · rfl
      · exact scan_markCode scan
  | charLiteral => exact scan_markCode scan
  | quoteOpener quote => exact leads.openQuote_scan quote scan
  | nestedOpener =>
      simp only [Reindexing.lexeme, LineScan.observe, Reindexing.scan, mode_after]
  | blockCloser =>
      simp only [Reindexing.lexeme, LineScan.observe, Reindexing.scan, mode_after]
  | _ => rfl

theorem Leads.run_scan (leads : reindexing.Leads first second) (distinct : first.Distinct)
    {scan : LineScan} (valid : scan.mode.Valid first) (text : Text) :
    (reindexing.scan scan).run second text = reindexing.scan (scan.run first text) := by
  have observed : ∀ (lexemes : List Lexeme) (scan : LineScan),
      (lexemes.map reindexing.lexeme).foldl (LineScan.observe second) (reindexing.scan scan) =
        reindexing.scan (lexemes.foldl (LineScan.observe first) scan) := by
    intro lexemes scan
    induction lexemes generalizing scan with
    | nil => rfl
    | cons lexeme rest inductionHypothesis =>
        rw [List.map_cons, List.foldl_cons, List.foldl_cons, leads.observe_scan,
          inductionHypothesis]
  have validThere : (reindexing.scan scan).mode.Valid second := leads.valid_mode valid
  rw [LineScan.run_eq_foldl_observe valid, LineScan.run_eq_foldl_observe validThere, ← observed,
    ← leads.lexemes_eq distinct]
  rfl

theorem endLine_scan (scan : LineScan) :
    (reindexing.scan scan).endLine = reindexing.scanner scan.endLine := by
  rcases scan with ⟨mode, line, past, current, regionLine, doc⟩
  cases doc <;> rfl

theorem firstMarks_scanner (scanner : Scanner) (line : Text) :
    (reindexing.scanner scanner).firstMarks line = scanner.firstMarks line := by
  rcases scanner with ⟨mode, number, marks, regionLine, doc⟩
  cases mode <;> cases doc <;> rfl

theorem beginLine_scanner (scanner : Scanner) (line : Text) :
    (reindexing.scanner scanner).beginLine line = reindexing.scan (scanner.beginLine line) := by
  rw [Scanner.beginLine, firstMarks_scanner]
  rfl

theorem Leads.feedLine_scanner (leads : reindexing.Leads first second)
    (distinct : first.Distinct) {scanner : Scanner} (sound : scanner.Sound first) (line : Text) :
    (reindexing.scanner scanner).feedLine second line =
      reindexing.scanner (scanner.feedLine first line) := by
  unfold Scanner.feedLine
  rw [leads.columnOne]
  have sameMode : (reindexing.scanner scanner).mode = .code ↔ scanner.mode = .code :=
    mode_eq_code_iff
  by_cases columnOne : scanner.mode = .code ∧ first.startsWithColumnOneComment line = true
  · rw [if_pos columnOne, if_pos ⟨sameMode.mpr columnOne.1, columnOne.2⟩]
    rw [firstMarks_scanner]
    rfl
  · rw [if_neg columnOne, if_neg (fun both => columnOne ⟨sameMode.mp both.1, both.2⟩),
      beginLine_scanner, leads.run_scan distinct (sound.beginLine line).valid, endLine_scan]

/-- After every line the scanners are in the same state, under other indices. -/
theorem Leads.feedLines_scanner (leads : reindexing.Leads first second)
    (distinct : first.Distinct) {scanner : Scanner} (sound : scanner.Sound first)
    (lines : List Text) :
    (reindexing.scanner scanner).feedLines second lines =
      reindexing.scanner (scanner.feedLines first lines) := by
  unfold Scanner.feedLines
  induction lines generalizing scanner with
  | nil => rfl
  | cons line rest inductionHypothesis =>
      rw [List.foldl_cons, List.foldl_cons, leads.feedLine_scanner distinct sound,
        inductionHypothesis (sound.feedLine line)]

/-- The region that is reported is the same. -/
theorem Leads.anomaly?_scanner (leads : reindexing.Leads first second) (scanner : Scanner) :
    (reindexing.scanner scanner).anomaly? second = scanner.anomaly? first := by
  unfold Scanner.anomaly?
  cases inside : scanner.mode with
  | code => simp only [Reindexing.scanner, inside, Reindexing.mode]
  | block pair depth => simp only [Reindexing.scanner, inside, Reindexing.mode, leads.blocks]
  | string quote => simp only [Reindexing.scanner, inside, Reindexing.mode, leads.quotes]

end Reindexing

/-- A profile is a set of delimiters: if two profiles list the same ones in different orders,
and none twice among those of its sort, every file is classified alike, and after any lines
the scanners are in the same state, but for the indices of the open region. -/
theorem classify_of_rearranged {first second : Profile} (rearranged : first.Rearranged second)
    (distinct : first.Distinct) :
    ∃ reindexing : Reindexing,
      (∀ i, second.blockComments[reindexing.blocks i]? = first.blockComments[i]?) ∧
      (∀ i, second.quotes[reindexing.quotes i]? = first.quotes[i]?) ∧
      ∀ lines, classify second lines = classify first lines ∧
        Scanner.feedLines second {} lines =
          reindexing.scanner (Scanner.feedLines first {} lines) := by
  obtain ⟨reindexing, leads⟩ := rearranged.exists_reindexing
  have same (lines : List Text) : Scanner.feedLines second {} lines =
      reindexing.scanner (Scanner.feedLines first {} lines) :=
    leads.feedLines_scanner distinct (Scanner.sound_empty first) lines
  refine ⟨reindexing, leads.blocks, leads.quotes, fun lines => ⟨?_, same lines⟩⟩
  rw [classify, classify, same, Scanner.finish, Scanner.finish, leads.anomaly?_scanner]
  rfl

/-- An open literal has another index if the quotes are listed the other way round. -/
theorem classify_of_reversed_quotes :
    let reversed := { Profile.documented with quotes := Delimiters.docstrings.reverse }
    Profile.documented.Rearranged reversed ∧ Profile.documented.Distinct ∧
      classify reversed ["'''a".toList] = classify .documented ["'''a".toList] ∧
      (Scanner.feedLines reversed {} ["'''a".toList]).mode = .string 2 ∧
      (Scanner.feedLines .documented {} ["'''a".toList]).mode = .string 1 := by
  intro reversed
  have rearranged : Profile.documented.Rearranged reversed :=
    ⟨.refl _, .refl _, (List.reverse_perm _).symm, .refl _, rfl⟩
  have distinct : Profile.documented.Distinct := by constructor <;> decide +kernel
  obtain ⟨_, _, _, same⟩ := classify_of_rearranged rearranged distinct
  exact ⟨rearranged, distinct, (same _).1, by decide +kernel, by decide +kernel⟩

end LineTally
