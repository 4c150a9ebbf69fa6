import LineTally.Proofs.Line.Splitting

/-!
# What further lines revise

Lines that follow can revise the kinds of lines before them in one case only: the
file so far ends inside a literal that may be documentation.  Then all of its lines
were comments, and if code turns up behind its closer they all become code
(`tags_append_or_revised`).

The marks of the lines before are kept as they are while that literal waits for a
decision.  They are settled once, and no literal that opens later reaches back to
them.
-/

namespace LineTally

/-- The marks of the lines so far, with the literal that waits for a decision settled. -/
def Scanner.settledMarks (asCode : Bool) (scanner : Scanner) : List Marks :=
  match scanner.doc.first? with
  | none => scanner.marks
  | some first => Marks.resolveLatest asCode (scanner.line - first) scanner.marks

theorem Scanner.finalMarks_eq_settledMarks (scanner : Scanner) :
    scanner.finalMarks = scanner.settledMarks false := by
  unfold finalMarks settledMarks
  cases scanner.doc <;> rfl

/-- What has become of the marks of `start`, where `doc` waits for a decision now. -/
inductive Scanner.Kept (start : Scanner) (doc : Docstring) : List Marks → Prop where
  | waiting : doc.first? = start.doc.first? → Kept start doc start.marks
  /-- What waits for a decision now has begun later. -/
  | settled (asCode : Bool) : (∀ first, doc.first? = some first → start.line ≤ first) →
      Kept start doc (start.settledMarks asCode)

/-- The marks `latestFirst` of all lines before line `line` go on from those of `start`. -/
def Scanner.GoesOn (start : Scanner) (doc : Docstring) (line : Nat)
    (latestFirst : List Marks) : Prop :=
  ∃ newer older, latestFirst = newer ++ older ∧ line = newer.length + start.line ∧
    start.Kept doc older

namespace Scanner

variable {profile : Profile} {start : Scanner} {doc doc' : Docstring} {line : Nat}
  {latestFirst : List Marks}

theorem settledMarks_of_first?_eq_none {scanner : Scanner} (undecided : scanner.doc.first? = none)
    (asCode : Bool) : scanner.settledMarks asCode = scanner.marks := by
  rw [settledMarks, undecided]

theorem Kept.congr {older : List Marks} (kept : start.Kept doc older)
    (firstEq : doc'.first? = doc.first?) : start.Kept doc' older := by
  cases kept with
  | waiting same => exact .waiting (firstEq.trans same)
  | settled asCode later => exact .settled asCode (firstEq ▸ later)

/-- While nothing waits for a decision, the marks of `start` are settled. -/
theorem Kept.eq_settledMarks {older : List Marks} (kept : start.Kept .none older) :
    ∃ asCode, older = start.settledMarks asCode := by
  cases kept with
  | waiting same => exact ⟨false, (settledMarks_of_first?_eq_none same.symm false).symm⟩
  | settled asCode => exact ⟨asCode, rfl⟩

/-- A literal that opens on a later line leaves the marks of `start` settled. -/
theorem Kept.opened {older : List Marks} {first : Nat} (kept : start.Kept .none older)
    (later : start.line ≤ first) : start.Kept (.opened first) older := by
  obtain ⟨asCode, rfl⟩ := kept.eq_settledMarks
  refine .settled asCode fun first' waiting => ?_
  cases waiting
  exact later

theorem Sound.first_lt (sound : start.Sound profile) {first : Nat}
    (waiting : start.doc.first? = some first) : first < start.line := by
  obtain ⟨⟨quote, literal, inString, _⟩, rfl⟩ := sound.opened (sound.doc_eq_opened waiting)
  exact sound.regionLine_lt (by simp [inString])

theorem GoesOn.congr (goesOn : start.GoesOn doc line latestFirst)
    (firstEq : doc'.first? = doc.first?) : start.GoesOn doc' line latestFirst := by
  obtain ⟨newer, older, append, length, kept⟩ := goesOn
  exact ⟨newer, older, append, length, kept.congr firstEq⟩

theorem GoesOn.cons (goesOn : start.GoesOn doc line latestFirst) (marks : Marks) :
    start.GoesOn doc (line + 1) (marks :: latestFirst) := by
  obtain ⟨newer, older, rfl, rfl, kept⟩ := goesOn
  refine ⟨marks :: newer, older, rfl, ?_, kept⟩
  rw [List.length_cons, Nat.add_right_comm]

/-- The decision about a literal reaches back to the marks of `start` only if it waited
there already. -/
theorem GoesOn.resolveLatest {first : Nat} (goesOn : start.GoesOn doc line latestFirst)
    (sound : start.Sound profile) (waiting : doc.first? = some first) (asCode : Bool) :
    start.GoesOn .none line (Marks.resolveLatest asCode (line - first) latestFirst) := by
  obtain ⟨newer, older, rfl, rfl, kept⟩ := goesOn
  cases kept with
  | waiting same =>
      have waited : start.doc.first? = some first := same.symm.trans waiting
      have firstLe := Nat.le_of_lt (sound.first_lt waited)
      refine ⟨newer.map (Marks.resolve asCode), start.settledMarks asCode, ?_, ?_,
        .settled asCode fun _ waits => absurd waits (by simp [Docstring.first?])⟩
      · rw [Nat.add_sub_assoc firstLe, Marks.resolveLatest_append_add]
        simp only [settledMarks, waited]
      · rw [List.length_map]
  | settled asCode' later =>
      have reached := later first waiting
      refine ⟨Marks.resolveLatest asCode (newer.length + start.line - first) newer,
        start.settledMarks asCode', Marks.resolveLatest_append (by omega), ?_,
        .settled asCode' fun _ waits => absurd waits (by simp [Docstring.first?])⟩
      rw [Marks.length_resolveLatest]

theorem GoesOn.settledMarks {later : Scanner}
    (goesOn : start.GoesOn later.doc later.line later.marks)
    (sound : start.Sound profile) (asCode : Bool) :
    start.GoesOn .none later.line (later.settledMarks asCode) := by
  rw [Scanner.settledMarks]
  cases waiting : later.doc.first? with
  | none => exact goesOn.congr waiting.symm
  | some first => exact goesOn.resolveLatest sound waiting asCode

end Scanner

namespace LineScan

open Scanner (GoesOn)

variable {profile : Profile} {start : Scanner} {scan : LineScan}

theorem goesOn_settle (goesOn : start.GoesOn scan.doc scan.line scan.past)
    (sound : start.Sound profile) (asCode : Bool) :
    start.GoesOn (scan.settle asCode).doc (scan.settle asCode).line
      (scan.settle asCode).past := by
  rw [line_settle]
  rcases scan.doc.eq_closed_or_ne with ⟨first, closed⟩ | notClosed
  · rw [settle_of_closed closed]
    exact goesOn.resolveLatest sound (by rw [closed]; rfl) asCode
  · rwa [settle_of_not_closed notClosed]

/-- Every lexeme keeps the marks of `start`, or settles them. -/
theorem goesOn_observe {lexeme : Lexeme}
    (goesOn : start.GoesOn scan.doc scan.line scan.past) (sound : start.Sound profile)
    (fits : lexeme.Fits profile scan.mode) :
    start.GoesOn (scan.observe profile lexeme).doc (scan.observe profile lexeme).line
      (scan.observe profile lexeme).past := by
  have marked : start.GoesOn scan.markCode.doc scan.markCode.line scan.markCode.past :=
    goesOn_settle goesOn sound true
  rcases scan with ⟨mode, line, past, current, regionLine, doc⟩
  cases fits with
  | plain c =>
      simp only [LineScan.observe]
      split
      · exact goesOn
      · exact marked
  | charLiteral => exact marked
  | @quoteOpener quote =>
      simp only [LineScan.observe]
      by_cases candidate : Candidate profile quote ⟨.code, line, past, current, regionLine, doc⟩
      · rw [openQuote_of_candidate candidate]
        obtain ⟨_, _, rfl⟩ := candidate
        obtain ⟨newer, older, append, rfl, kept⟩ := goesOn
        exact ⟨newer, older, append, rfl, kept.opened (Nat.le_add_left _ _)⟩
      · rw [openQuote_of_not_candidate candidate]
        exact marked
  | quoteCloser => exact goesOn.congr (Docstring.first?_close doc)
  | _ => exact goesOn

end LineScan

namespace Scanner

variable {profile : Profile} {start later : Scanner}

theorem GoesOn.feedLine (goesOn : start.GoesOn later.doc later.line later.marks)
    (sound : start.Sound profile) (valid : later.mode.Valid profile) (line : Text) :
    start.GoesOn (later.feedLine profile line).doc (later.feedLine profile line).line
      (later.feedLine profile line).marks := by
  rw [Scanner.feedLine]
  split
  · exact goesOn.cons _
  · have begunValid : (later.beginLine line).mode.Valid profile := valid
    have ran := LineScan.run_induction
      (motive := fun scan => start.GoesOn scan.doc scan.line scan.past)
      (fun fits _ goesOn => LineScan.goesOn_observe goesOn sound fits) begunValid goesOn line
    rw [LineScan.endLine_eq_settle]
    exact (LineScan.goesOn_settle ran sound false).cons _

theorem GoesOn.feedLines (goesOn : start.GoesOn later.doc later.line later.marks)
    (sound : start.Sound profile) (laterSound : later.Sound profile) (lines : List Text) :
    start.GoesOn (later.feedLines profile lines).doc (later.feedLines profile lines).line
      (later.feedLines profile lines).marks := by
  rw [Scanner.feedLines]
  induction lines generalizing later with
  | nil => exact goesOn
  | cons line rest inductionHypothesis =>
      exact inductionHypothesis (goesOn.feedLine sound laterSound.valid line)
        (laterSound.feedLine line)

/-- Whatever lines follow, they leave the marks of `start` settled. -/
theorem finalMarks_feedLines (sound : start.Sound profile) (lines : List Text) :
    ∃ newer asCode, (start.feedLines profile lines).finalMarks =
      newer ++ start.settledMarks asCode := by
  have begun : start.GoesOn start.doc start.line start.marks :=
    ⟨[], start.marks, rfl, (Nat.zero_add _).symm, .waiting rfl⟩
  have ended := (begun.feedLines sound sound lines).settledMarks sound false
  obtain ⟨newer, older, append, _, kept⟩ := ended
  obtain ⟨asCode, rfl⟩ := kept.eq_settledMarks
  exact ⟨newer, asCode, (finalMarks_eq_settledMarks _).trans append⟩

/-- The lines of a literal that waits for a decision are all of one kind once it is
settled; the lines before it do not depend on the decision. -/
theorem Sound.reverse_map_kind_settledMarks {first : Nat} (sound : start.Sound profile)
    (waiting : start.doc.first? = some first) (asCode : Bool) :
    ((start.settledMarks asCode).map Marks.kind).reverse =
      ((start.marks.drop (start.line - first)).map Marks.kind).reverse ++
        List.replicate (start.line - first) (if asCode then .code else .comment) := by
  have resolved : ∀ marks ∈ start.marks.take (start.line - first),
      (Marks.kind ∘ Marks.resolve asCode) marks = if asCode then .code else .comment := by
    intro marks member
    rw [← sound.length_marks] at member
    obtain ⟨n, reached, marked, notCode⟩ := sound.lines.of_mem_take member
    have doc := marked.mpr ⟨first, waiting, reached⟩
    cases asCode <;> simp [Marks.resolve, Marks.kind, doc, notCode doc]
  have length : (start.marks.take (start.line - first)).length = start.line - first := by
    rw [List.length_take, sound.length_marks]
    exact Nat.min_eq_left (Nat.sub_le _ _)
  rw [settledMarks, waiting]
  simp only [Marks.resolveLatest, List.map_append, List.map_map, List.reverse_append]
  rw [List.map_eq_replicate_iff.mpr resolved, List.reverse_replicate, length]

/-- What waits for a decision is reported as an open region. -/
theorem Sound.anomaly?_of_waiting {first : Nat} (sound : start.Sound profile)
    (waiting : start.doc.first? = some first) :
    start.mode.MayDocument profile ∧
      ∃ anomaly, start.anomaly? profile = some anomaly ∧ anomaly.line = first + 1 := by
  obtain ⟨document, rfl⟩ := sound.opened (sound.doc_eq_opened waiting)
  refine ⟨document, ?_⟩
  obtain ⟨quote, literal, inString, listed, _⟩ := document
  refine ⟨⟨.string, start.regionLine + 1, literal.delimiter⟩, ?_, rfl⟩
  rw [Scanner.anomaly?, inString]
  simp only [listed, Option.map_some]

end Scanner

/-- All kinds from line `opener` on, counted from one, change from comment to code. -/
def Revises (opener : Nat) (earlier later : List LineKind) : Prop :=
  ∃ before count behind, opener = before.length + 1 ∧
    earlier = before ++ List.replicate count .comment ∧
    later = before ++ List.replicate count .code ++ behind

namespace Revises

variable {opener : Nat} {earlier later : List LineKind}

theorem getElem?_of_le (revises : Revises opener earlier later) {n : Nat}
    (below : n < earlier.length) (reached : opener ≤ n + 1) :
    earlier[n]? = some .comment ∧ later[n]? = some .code := by
  obtain ⟨before, count, behind, rfl, rfl, rfl⟩ := revises
  have past : before.length ≤ n := Nat.le_of_succ_le_succ reached
  have within : n - before.length < count := by
    rw [List.length_append, List.length_replicate] at below
    exact Nat.sub_lt_left_of_lt_add past below
  rw [List.append_assoc, List.getElem?_append_right past, List.getElem?_append_right past,
    List.getElem?_append_left (by simpa using within)]
  simp [within]

theorem getElem?_of_lt (revises : Revises opener earlier later) {n : Nat}
    (notReached : n + 1 < opener) : later[n]? = earlier[n]? := by
  obtain ⟨before, count, behind, rfl, rfl, rfl⟩ := revises
  have inside : n < before.length := Nat.lt_of_succ_lt_succ notReached
  rw [List.append_assoc, List.getElem?_append_left inside, List.getElem?_append_left inside]

/-- If no kind has changed there was nothing to revise. -/
theorem prefix_of_same (revises : Revises opener earlier later)
    (same : ∀ n < earlier.length, later[n]? = earlier[n]?) : earlier <+: later := by
  have every (n : Nat) (below : n < earlier.length) : n + 1 < opener := by
    apply Nat.lt_of_not_le
    intro reached
    obtain ⟨wasComment, isCode⟩ := revises.getElem?_of_le below reached
    have still := same n below
    rw [wasComment, isCode] at still
    contradiction
  obtain ⟨before, count, behind, rfl, rfl, rfl⟩ := revises
  cases count with
  | zero => exact ⟨behind, by simp⟩
  | succ count =>
      have beyond := every before.length (by simp)
      exact absurd beyond (Nat.lt_irrefl _)

end Revises

/-- Further lines leave the kinds of the lines before as they are, or they revise all lines
of the literal that is open there. -/
theorem tags_append_or_revised (profile : Profile) (first second : List Text) :
    (classify profile first).tags <+: (classify profile (first ++ second)).tags ∨
      (Scanner.feedLines profile {} first).mode.MayDocument profile ∧
        ∃ anomaly, (classify profile first).anomaly = some anomaly ∧
          Revises anomaly.line (classify profile first).tags
            (classify profile (first ++ second)).tags := by
  have sound := Scanner.sound_feedLines profile first
  obtain ⟨newer, asCode, finalMarks⟩ := Scanner.finalMarks_feedLines sound second
  simp only [classify, Scanner.finish]
  rw [Scanner.feedLines_append, finalMarks, Scanner.finalMarks_eq_settledMarks, List.map_append,
    List.reverse_append]
  generalize Scanner.feedLines profile {} first = scanner at sound
  cases waiting : scanner.doc.first? with
  | none =>
      left
      rw [Scanner.settledMarks_of_first?_eq_none waiting,
        Scanner.settledMarks_of_first?_eq_none waiting]
      exact List.prefix_append _ _
  | some start =>
      cases asCode with
      | false => exact .inl (List.prefix_append _ _)
      | true =>
          right
          obtain ⟨document, anomaly, found, opener⟩ := sound.anomaly?_of_waiting waiting
          refine ⟨document, anomaly, found, _, scanner.line - start, _, ?_,
            sound.reverse_map_kind_settledMarks waiting false,
            congrArg (· ++ _) (sound.reverse_map_kind_settledMarks waiting true)⟩
          rw [opener, List.length_reverse, List.length_map, List.length_drop,
            sound.length_marks, Nat.sub_sub_self (Nat.le_of_lt (sound.first_lt waiting))]

/-- A line whose kind is revised was a comment and becomes code, together with all lines
from the opener of the literal that is still open there; if no kind is revised, the kinds
go on from what they were. -/
theorem tags_revised_only_in_documentation (profile : Profile) (first second : List Text) :
    (∀ n < first.length,
      (classify profile (first ++ second)).tags[n]? ≠ (classify profile first).tags[n]? →
        (classify profile first).tags[n]? = some .comment ∧
          (classify profile (first ++ second)).tags[n]? = some .code ∧
          (Scanner.feedLines profile {} first).mode.MayDocument profile ∧
          ∃ anomaly, (classify profile first).anomaly = some anomaly ∧
            anomaly.line ≤ n + 1 ∧
            ∀ m < first.length, anomaly.line ≤ m + 1 →
              (classify profile first).tags[m]? = some .comment ∧
                (classify profile (first ++ second)).tags[m]? = some .code) ∧
      ((∀ n < first.length,
          (classify profile (first ++ second)).tags[n]? = (classify profile first).tags[n]?) →
        (classify profile first).tags <+: (classify profile (first ++ second)).tags) := by
  rw [← length_tags_classify profile first]
  rcases tags_append_or_revised profile first second with ⟨rest, append⟩ |
    ⟨document, anomaly, found, revises⟩
  · constructor
    · intro n below differ
      rw [← append, List.getElem?_append_left below] at differ
      exact absurd rfl differ
    · exact fun _ => ⟨rest, append⟩
  · constructor
    · intro n below differ
      have reached : anomaly.line ≤ n + 1 := by
        apply Nat.le_of_not_lt
        exact fun notReached => differ (revises.getElem?_of_lt notReached)
      obtain ⟨wasComment, isCode⟩ := revises.getElem?_of_le below reached
      exact ⟨wasComment, isCode, document, anomaly, found, reached,
        fun m => revises.getElem?_of_le⟩
    · exact revises.prefix_of_same

/-- Code behind the closer revises documentation. -/
theorem documentation_revised_behind_closer :
    (classify .documented (["x".toList, "'''a".toList] ++ ["b''' + y".toList])).tags[1]? ≠
        (classify .documented ["x".toList, "'''a".toList]).tags[1]? ∧
      (classify .documented ["x".toList, "'''a".toList]).tags[1]? = some .comment ∧
      (classify .documented
        (["x".toList, "'''a".toList] ++ ["b''' + y".toList])).tags[1]? = some .code ∧
      (Scanner.feedLines .documented {} ["x".toList, "'''a".toList]).mode.MayDocument
        .documented := by
  have differ : (classify .documented
      (["x".toList, "'''a".toList] ++ ["b''' + y".toList])).tags[1]? ≠
        (classify .documented ["x".toList, "'''a".toList]).tags[1]? := by
    decide +kernel
  obtain ⟨wasComment, isCode, document, _⟩ :=
    (tags_revised_only_in_documentation _ _ _).1 1 (by decide) differ
  exact ⟨differ, wasComment, isCode, document⟩

end LineTally
