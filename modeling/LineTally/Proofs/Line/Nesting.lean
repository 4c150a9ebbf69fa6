import LineTally.Proofs.Line.Closing
import LineTally.Proofs.Line.CommentLine

/-!
# Block comments that nest

Inside a block comment that nests the scanner counts.  An opener raises the depth and a
closer lowers it, and neither can be taken for the other: the closer is looked for first, but
it does not begin where an opener stands, and no other character begins either of the two.
So the depth at any point of a balanced text is the depth before it and the nesting level of
the point (`Scanner.hasRead`), however the text is spread over lines.

The lines of such a text began inside the comment.  They are comments, unless the comment ends
on the last of them and code follows there (`nested_comment_balances`).
-/

namespace LineTally

/-! ## Balanced texts -/

/-- What a text inside a block comment is made of. -/
inductive CommentPart where
  | char (c : Char)
  | lineBreak
  | opener
  | closer
deriving DecidableEq

/-- A text that is spread over lines. -/
structure Passage where
  /-- The lines before its last line break. -/
  whole : List Text := []
  /-- What stands behind its last line break. -/
  last : Text := []

namespace BlockComment

variable {delimiters : BlockComment} {parts before : List CommentPart}

/-- Write down one more part. -/
def write (delimiters : BlockComment) (passage : Passage) : CommentPart → Passage
  | .char c => { passage with last := passage.last ++ [c] }
  | .lineBreak => { whole := passage.whole ++ [passage.last], last := [] }
  | .opener => { passage with last := passage.last ++ delimiters.opener }
  | .closer => { passage with last := passage.last ++ delimiters.closer }

def passage (delimiters : BlockComment) (parts : List CommentPart) : Passage :=
  parts.foldl delimiters.write {}

/-- The lines of a text, with `tail` behind it on the last one. -/
def lines (delimiters : BlockComment) (parts : List CommentPart) (tail : Text) : List Text :=
  (delimiters.passage parts).whole ++ [(delimiters.passage parts).last ++ tail]

/-- Openers and closers match.  No other character begins either of them. -/
inductive Balanced (delimiters : BlockComment) : List CommentPart → Prop
  | nil : Balanced delimiters []
  | char {c : Char} {parts : List CommentPart} : delimiters.opener.head? ≠ some c →
      delimiters.closer.head? ≠ some c → Balanced delimiters parts →
        Balanced delimiters (.char c :: parts)
  | lineBreak {parts : List CommentPart} : Balanced delimiters parts →
      Balanced delimiters (.lineBreak :: parts)
  | nested {inner parts : List CommentPart} : Balanced delimiters inner →
      Balanced delimiters parts → Balanced delimiters (.opener :: inner ++ .closer :: parts)

theorem passage_concat (delimiters : BlockComment) (parts : List CommentPart)
    (part : CommentPart) :
    delimiters.passage (parts ++ [part]) = delimiters.write (delimiters.passage parts) part := by
  rw [passage, List.foldl_append]
  rfl

/-- Up to any of its points a text is written down as if it ended there. -/
theorem exists_lines_append (delimiters : BlockComment) (before behind : List CommentPart)
    (tail : Text) :
    ∃ rest later, delimiters.lines (before ++ behind) tail =
      (delimiters.passage before).whole ++
        ((delimiters.passage before).last ++ rest) :: later := by
  induction behind generalizing before with
  | nil => exact ⟨tail, [], by rw [List.append_nil, lines]⟩
  | cons part behind inductionHypothesis =>
      obtain ⟨rest, later, written⟩ := inductionHypothesis (before ++ [part])
      rw [List.append_assoc, List.singleton_append, passage_concat] at written
      cases part with
      | char c => exact ⟨[c] ++ rest, later, by rw [written, write, List.append_assoc]⟩
      | lineBreak => exact ⟨[], rest :: later, by simp [written, write]⟩
      | opener =>
          exact ⟨delimiters.opener ++ rest, later, by rw [written, write, List.append_assoc]⟩
      | closer =>
          exact ⟨delimiters.closer ++ rest, later, by rw [written, write, List.append_assoc]⟩

/-- A closer behind a text is the last part of a text. -/
theorem lines_closer (delimiters : BlockComment) (parts : List CommentPart) (rest : Text) :
    delimiters.lines parts (delimiters.closer ++ rest) =
      delimiters.lines (parts ++ [.closer]) rest := by
  rw [lines, lines, passage_concat, write, List.append_assoc]

namespace Balanced

theorem plain (balanced : delimiters.Balanced parts) {c : Char}
    (member : .char c ∈ parts) :
    delimiters.opener.head? ≠ some c ∧ delimiters.closer.head? ≠ some c := by
  induction balanced with
  | nil => contradiction
  | char notOpener notCloser _ inductionHypothesis =>
      rcases List.mem_cons.mp member with same | later
      · cases same
        exact ⟨notOpener, notCloser⟩
      · exact inductionHypothesis later
  | lineBreak _ inductionHypothesis =>
      rcases List.mem_cons.mp member with same | later
      · contradiction
      · exact inductionHypothesis later
  | nested _ _ inner behind =>
      simp only [List.cons_append, List.mem_cons, List.mem_append, reduceCtorEq, false_or] at member
      rcases member with inside | later
      · exact inner inside
      · exact behind later

theorem count_eq (balanced : delimiters.Balanced parts) :
    parts.count .closer = parts.count .opener := by
  induction balanced with
  | nil => rfl
  | char _ _ _ inductionHypothesis => simpa using inductionHypothesis
  | lineBreak _ inductionHypothesis => simpa using inductionHypothesis
  | nested _ _ inner behind =>
      simp only [List.cons_append, List.count_cons_self, List.count_append, ne_eq, reduceCtorEq,
        not_false_eq_true, List.count_cons_of_ne, inner, behind]
      omega

/-- Nowhere have there been more closers than openers. -/
theorem count_le_of_prefix (balanced : delimiters.Balanced parts) (begins : before <+: parts) :
    before.count .closer ≤ before.count .opener := by
  induction balanced generalizing before with
  | nil =>
      rw [List.prefix_nil.mp begins]
      exact Nat.le_refl _
  | char _ _ _ inductionHypothesis =>
      rcases List.prefix_cons_iff.mp begins with rfl | ⟨more, rfl, within⟩
      · exact Nat.le_refl _
      · simpa using inductionHypothesis within
  | lineBreak _ inductionHypothesis =>
      rcases List.prefix_cons_iff.mp begins with rfl | ⟨more, rfl, within⟩
      · exact Nat.le_refl _
      · simpa using inductionHypothesis within
  | @nested inner parts innerBalanced _ withinInner behind =>
      rcases List.prefix_cons_iff.mp begins with rfl | ⟨more, rfl, within⟩
      · exact Nat.le_refl _
      rcases List.prefix_or_prefix_of_prefix within (List.prefix_append inner _) with
        inside | ⟨past, rfl⟩
      · have fewer := withinInner inside
        simp only [List.count_cons_self, ne_eq, reduceCtorEq, not_false_eq_true,
          List.count_cons_of_ne]
        omega
      · have matched := innerBalanced.count_eq
        rcases List.prefix_cons_iff.mp ((List.prefix_append_right_inj inner).mp within) with
          rfl | ⟨more, rfl, beyond⟩
        · simp [matched]
        · have fewer := behind beyond
          simp only [List.count_cons_self, List.count_append, ne_eq, reduceCtorEq,
            not_false_eq_true, List.count_cons_of_ne]
          omega

end Balanced

end BlockComment

/-! ## Steps inside a comment that nests -/

/-- The pair nests, and neither delimiter can be taken for the other. -/
structure BlockComment.Nests (delimiters : BlockComment) : Prop where
  nestable : delimiters.nestable = true
  opener_ne_nil : delimiters.opener ≠ []
  closer_ne_nil : delimiters.closer ≠ []
  opener_not_prefix : ¬ delimiters.opener <+: delimiters.closer
  closer_not_prefix : ¬ delimiters.closer <+: delimiters.opener

/-- So many openers deep in a block comment, or outside of it. -/
def Mode.nested (pair depth : Nat) : Mode :=
  if depth = 0 then .code else .block pair depth

theorem Mode.nested_of_pos {pair depth : Nat} (positive : 0 < depth) :
    Mode.nested pair depth = .block pair depth :=
  if_neg (Nat.ne_of_gt positive)

theorem Mode.nested_ne_string (pair depth quote : Nat) :
    Mode.nested pair depth ≠ .string quote := by
  rw [Mode.nested]
  split <;> exact Mode.noConfusion

variable {profile : Profile} {pair depth : Nat} {delimiters : BlockComment}

namespace BlockComment.Nests

variable {scan : LineScan}

theorem valid_block (nests : delimiters.Nests)
    (listed : profile.blockComments[pair]? = some delimiters) (positive : 0 < depth) :
    (Mode.block pair depth).Valid profile :=
  ⟨delimiters, listed, nests.opener_ne_nil, positive, .inr nests.nestable⟩

theorem valid_nested (nests : delimiters.Nests)
    (listed : profile.blockComments[pair]? = some delimiters) (depth : Nat) :
    (Mode.nested pair depth).Valid profile := by
  rw [Mode.nested]
  split
  · trivial
  · next deep => exact nests.valid_block listed (Nat.pos_of_ne_zero deep)

/-- Where an opener stands no closer begins. -/
theorem not_closer_prefix (nests : delimiters.Nests) (rest : Text) :
    ¬ delimiters.closer <+: delimiters.opener ++ rest := by
  intro closes
  rcases List.prefix_or_prefix_of_prefix closes (List.prefix_append delimiters.opener rest) with
    within | within
  · exact nests.closer_not_prefix within
  · exact nests.opener_not_prefix within

/-- A character that begins neither delimiter is passed over. -/
theorem next_char (nests : delimiters.Nests)
    (listed : profile.blockComments[pair]? = some delimiters)
    (inside : scan.mode = .block pair depth) {c : Char}
    (plain : delimiters.opener.head? ≠ some c ∧ delimiters.closer.head? ≠ some c)
    (rest : Text) : Place.Next profile ⟨scan, c :: rest⟩ ⟨scan, rest⟩ := by
  have step := Place.next_block inside listed (fun _ => nests.opener_ne_nil)
    (List.cons_ne_nil c rest)
  rw [if_neg, if_neg] at step
  · exact step
  · exact fun opens => plain.1 (Text.head?_of_prefix_cons nests.opener_ne_nil opens.2)
  · exact fun closes => plain.2 (Text.head?_of_prefix_cons nests.closer_ne_nil closes)

theorem next_opener (nests : delimiters.Nests)
    (listed : profile.blockComments[pair]? = some delimiters)
    (inside : scan.mode = .block pair depth) (rest : Text) :
    Place.Next profile ⟨scan, delimiters.opener ++ rest⟩
      ⟨{ scan with mode := .block pair (depth + 1) }, rest⟩ := by
  have stands : delimiters.opener <+: delimiters.opener ++ rest := List.prefix_append _ _
  have step := Place.next_block inside listed (fun _ => nests.opener_ne_nil)
    (List.append_ne_nil_of_left_ne_nil nests.opener_ne_nil rest)
  rw [if_neg (nests.not_closer_prefix rest), if_pos ⟨nests.nestable, stands⟩,
    List.drop_left] at step
  simp only [inside, Mode.after] at step
  exact step

theorem next_closer (nests : delimiters.Nests)
    (listed : profile.blockComments[pair]? = some delimiters)
    (inside : scan.mode = .block pair depth) (rest : Text) :
    Place.Next profile ⟨scan, delimiters.closer ++ rest⟩
      ⟨{ scan with mode := .nested pair (depth - 1) }, rest⟩ := by
  have stands : delimiters.closer <+: delimiters.closer ++ rest := List.prefix_append _ _
  have step := Place.next_block inside listed (fun _ => nests.opener_ne_nil)
    (List.append_ne_nil_of_left_ne_nil nests.closer_ne_nil rest)
  rw [if_pos stands, List.drop_left] at step
  simp only [inside, Mode.after] at step
  simpa only [Mode.nested, Nat.sub_eq_zero_iff_le] using step

end BlockComment.Nests

/-! ## Reading a text inside a comment -/

namespace Scanner

variable {scanner : Scanner} {passage : Passage} {mode : Mode}

/-- Whatever is left of the line behind the passage, the scanner comes to the end of the
passage in this mode and has taken note of nothing else on the line. -/
def ReadsUpTo (profile : Profile) (scanner : Scanner) (passage : Passage) (mode : Mode) : Prop :=
  ∀ rest, (scanner.feedLines profile passage.whole).Visits profile (passage.last ++ rest)
    ⟨{ (scanner.feedLines profile passage.whole).beginLine (passage.last ++ rest) with
        mode := mode }, rest⟩

/-- The scanner reads up to the end of a passage and has not left the comment before its last
line. -/
structure HasRead (profile : Profile) (scanner : Scanner) (pair : Nat) (passage : Passage)
    (mode : Mode) : Prop where
  inside : ∃ depth, (scanner.feedLines profile passage.whole).mode = .block pair depth
  valid : (scanner.feedLines profile passage.whole).mode.Valid profile
  regionLine : (scanner.feedLines profile passage.whole).regionLine = scanner.regionLine
  reads : scanner.ReadsUpTo profile passage mode

theorem HasRead.mode_ne_code (hasRead : scanner.HasRead profile pair passage mode) :
    (scanner.feedLines profile passage.whole).mode ≠ .code := by
  obtain ⟨depth, inside⟩ := hasRead.inside
  simp [inside]

theorem hasRead_empty (inside : scanner.mode = .block pair depth)
    (valid : scanner.mode.Valid profile) :
    scanner.HasRead profile pair {} (.block pair depth) := by
  have inRegion : scanner.mode ≠ .code := by simp [inside]
  constructor
  case inside => exact ⟨depth, inside⟩
  case valid => exact valid
  case regionLine => rfl
  case reads =>
    rw [← inside]
    exact fun rest => ⟨fun columnOne => inRegion columnOne.1, .refl⟩

/-- A step goes on behind the passage. -/
theorem HasRead.extend (hasRead : scanner.HasRead profile pair passage mode) {text : Text}
    {behind : Mode}
    (step : ∀ (scan : LineScan) (rest : Text), scan.mode = mode →
      Place.Next profile ⟨scan, text ++ rest⟩ ⟨{ scan with mode := behind }, rest⟩) :
    scanner.HasRead profile pair { passage with last := passage.last ++ text } behind := by
  constructor
  case inside => exact hasRead.inside
  case valid => exact hasRead.valid
  case regionLine => exact hasRead.regionLine
  case reads =>
    intro rest
    obtain ⟨notColumnOne, reached⟩ := hasRead.reads (text ++ rest)
    simp only [List.append_assoc]
    exact ⟨notColumnOne, .tail reached (step _ rest rfl)⟩

/-- Where a line ends with the passage no more than the mode is carried on. -/
theorem HasRead.feedLine (hasRead : scanner.HasRead profile pair passage mode) :
    (scanner.feedLines profile (passage.whole ++ [passage.last])).mode = mode ∧
      (scanner.feedLines profile (passage.whole ++ [passage.last])).regionLine =
        scanner.regionLine := by
  obtain ⟨_, reached⟩ := hasRead.reads []
  rw [List.append_nil] at reached
  have ran := Place.run_eq_of_reaches hasRead.valid reached
  have fed : scanner.feedLines profile (passage.whole ++ [passage.last]) =
      (scanner.feedLines profile passage.whole).feedLine profile passage.last :=
    feedLines_append profile scanner passage.whole [passage.last]
  rw [fed, feedLine_of_mode_ne_code hasRead.mode_ne_code, ran, LineScan.run,
    LineScan.endLine_eq_settle]
  constructor
  · exact LineScan.mode_settle _ false
  · exact (LineScan.regionLine_settle _ false).trans hasRead.regionLine

theorem HasRead.breakLine (hasRead : scanner.HasRead profile pair passage (.block pair depth))
    (valid : (Mode.block pair depth).Valid profile) :
    scanner.HasRead profile pair { whole := passage.whole ++ [passage.last], last := [] }
      (.block pair depth) := by
  obtain ⟨modeEq, regionLine⟩ := hasRead.feedLine
  have begun := hasRead_empty modeEq (modeEq ▸ valid)
  exact ⟨⟨depth, modeEq⟩, begun.valid, regionLine, begun.reads⟩

/-- Inside a comment that nests, the depth is that before the text and what the delimiters in
the text add to it. -/
theorem hasRead_passage (nests : delimiters.Nests)
    (listed : profile.blockComments[pair]? = some delimiters) (positive : 0 < depth)
    (inside : scanner.mode = .block pair depth) {parts : List CommentPart}
    (plain : ∀ c, .char c ∈ parts →
      delimiters.opener.head? ≠ some c ∧ delimiters.closer.head? ≠ some c)
    (deep : ∀ before part, before ++ [part] <+: parts →
      before.count .closer < depth + before.count .opener) :
    scanner.HasRead profile pair (delimiters.passage parts)
      (.nested pair (depth + parts.count .opener - parts.count .closer)) := by
  -- What a part does depends on all parts before it, so the induction is on the last part; the
  -- depth in front of it is positive, which keeps the scanner inside the comment.
  induction parts using List.reverseRecOn with
  | nil =>
      have begun := hasRead_empty inside (inside ▸ nests.valid_block listed positive)
      rwa [← Mode.nested_of_pos positive] at begun
  | append_singleton parts part inductionHypothesis =>
      have fewer := deep parts part List.prefix_rfl
      have deeper : 0 < depth + parts.count .opener - parts.count .closer :=
        Nat.sub_pos_of_lt fewer
      have hasRead := inductionHypothesis
        (fun c member => plain c (List.mem_append_left _ member))
        (fun before part begins => deep before part (begins.trans (List.prefix_append _ _)))
      rw [Mode.nested_of_pos deeper] at hasRead
      rw [BlockComment.passage_concat, List.count_append, List.count_append]
      cases part with
      | char c =>
          have plainChar := plain c (List.mem_append_right _ List.mem_cons_self)
          rw [Mode.nested_of_pos (by simpa using deeper)]
          exact hasRead.extend fun scan rest inside =>
            inside ▸ nests.next_char listed inside plainChar rest
      | lineBreak =>
          rw [Mode.nested_of_pos (by simpa using deeper)]
          exact hasRead.breakLine (nests.valid_block listed deeper)
      | opener =>
          have raised : depth + (parts.count .opener + [CommentPart.opener].count .opener) -
              (parts.count .closer + [CommentPart.opener].count .closer) =
                depth + parts.count .opener - parts.count .closer + 1 := by
            have one : [CommentPart.opener].count .opener = 1 := rfl
            have none : [CommentPart.opener].count .closer = 0 := rfl
            omega
          rw [raised, Mode.nested_of_pos (Nat.succ_pos _)]
          exact hasRead.extend fun scan rest inside => nests.next_opener listed inside rest
      | closer =>
          have lowered : depth + (parts.count .opener + [CommentPart.closer].count .opener) -
              (parts.count .closer + [CommentPart.closer].count .closer) =
                depth + parts.count .opener - parts.count .closer - 1 := by
            have none : [CommentPart.closer].count .opener = 0 := rfl
            have one : [CommentPart.closer].count .closer = 1 := rfl
            omega
          rw [lowered]
          exact hasRead.extend fun scan rest inside => nests.next_closer listed inside rest

end Scanner

namespace BlockComment.Balanced

variable {scanner : Scanner} {parts before : List CommentPart}

theorem hasRead (balanced : delimiters.Balanced parts) (nests : delimiters.Nests)
    (listed : profile.blockComments[pair]? = some delimiters) (positive : 0 < depth)
    (inside : scanner.mode = .block pair depth) (begins : before <+: parts) :
    scanner.HasRead profile pair (delimiters.passage before)
      (.block pair (depth + (before.count .opener - before.count .closer))) := by
  have fewer := balanced.count_le_of_prefix begins
  rw [← Nat.add_sub_assoc fewer, ← Mode.nested_of_pos (by omega)]
  apply Scanner.hasRead_passage nests listed positive inside
  · exact fun c member => balanced.plain (begins.subset member)
  · intro earlier part within
    have fewer := balanced.count_le_of_prefix
      (((List.prefix_append earlier [part]).trans within).trans begins)
    omega

/-- Behind the whole text the depth is what it was. -/
theorem hasRead_whole (balanced : delimiters.Balanced parts) (nests : delimiters.Nests)
    (listed : profile.blockComments[pair]? = some delimiters) (positive : 0 < depth)
    (inside : scanner.mode = .block pair depth) :
    scanner.HasRead profile pair (delimiters.passage parts) (.block pair depth) := by
  have read := balanced.hasRead nests listed positive inside List.prefix_rfl
  rwa [balanced.count_eq, Nat.sub_self] at read

theorem hasRead_closer (balanced : delimiters.Balanced parts) (nests : delimiters.Nests)
    (listed : profile.blockComments[pair]? = some delimiters) (positive : 0 < depth)
    (inside : scanner.mode = .block pair depth) :
    scanner.HasRead profile pair (delimiters.passage (parts ++ [.closer]))
      (.nested pair (depth - 1)) := by
  rw [passage_concat]
  exact (balanced.hasRead_whole nests listed positive inside).extend
    fun scan rest inside => nests.next_closer listed inside rest

end BlockComment.Balanced

/-! ## The kinds of the lines -/

namespace Scanner.HasRead

variable {before : List Text} {passage : Passage} {mode : Mode}

/-- The lines that are read inside the comment are comments. -/
theorem tag_of_whole (hasRead : (feedLines profile {} before).HasRead profile pair passage mode)
    (inside : (feedLines profile {} before).mode = .block pair depth) {n : Nat}
    (reached : before.length ≤ n) (below : n < before.length + passage.whole.length)
    (after : List Text) :
    (classify profile (before ++ passage.whole ++ after)).tags[n]? = some .comment := by
  obtain ⟨level, ended⟩ := hasRead.inside
  have regionLine := hasRead.regionLine
  have opened := (sound_feedLines profile before).regionLine_lt (by simp [inside])
  rw [line_feedLines] at opened
  rw [← feedLines_append] at ended regionLine
  refine tag_in_open_block ended ?_ ?_ after
  · rw [regionLine]
    exact Nat.lt_of_lt_of_le (by simpa using opened) reached
  · rwa [List.length_append]

/-- The line that the passage ends on is a comment or code, and it is a comment if no code is
met behind the passage. -/
theorem tag_of_last (hasRead : (feedLines profile {} before).HasRead profile pair passage mode)
    (valid : mode.Valid profile) (notString : ∀ quote, mode ≠ .string quote) (rest : Text)
    (after : List Text) :
    let tag := (classify profile (before ++ passage.whole ++ (passage.last ++ rest) ::
      after)).tags[before.length + passage.whole.length]?
    (tag = some .comment ∨ tag = some .code) ∧
      ((∀ lexeme ∈ profile.lexemes mode rest, lexeme.mayBeCode = false) →
        tag = some .comment) := by
  obtain ⟨level, ended⟩ := hasRead.inside
  have beforeSound := (sound_feedLines profile (before ++ passage.whole))
  rw [feedLines_append] at beforeSound
  obtain ⟨_, reached⟩ := hasRead.reads rest
  have ran := Place.run_eq_of_reaches hasRead.valid reached
  rw [← feedLines_append] at ended ran beforeSound
  have tagged := tag_of_line_in_block ended (passage.last ++ rest) after
  rw [List.length_append] at tagged
  refine ⟨tagged.1, fun noCode => tagged.2 ?_⟩
  rw [ran]
  refine LineScan.Quiet.run ?_ valid noCode
  constructor
  case notString => exact notString
  case doc_eq_none => exact beforeSound.doc_eq_none (by simp [ended])
  case code_eq_false => simp [beginLine, firstMarks, ended]

/-- All lines up to the end of the passage are comments, but for code behind it on the last
one. -/
theorem tags_of_lines (hasRead : (feedLines profile {} before).HasRead profile pair passage mode)
    (inside : (feedLines profile {} before).mode = .block pair depth)
    (valid : mode.Valid profile) (notString : ∀ quote, mode ≠ .string quote) (rest : Text)
    (after : List Text) :
    let lines := passage.whole ++ [passage.last ++ rest]
    let inventory := Inventory.ofLines profile (before ++ lines ++ after)
    ∀ n, before.length ≤ n → n < before.length + lines.length →
      (classify profile (before ++ lines ++ after)).tags[n]? =
        some (if inventory.IsCode profile n then .code else .comment) ∧
      (inventory.IsCode profile n → n + 1 = before.length + lines.length ∧
        ∃ lexeme ∈ profile.lexemes mode rest, lexeme.mayBeCode = true) := by
  intro lines inventory n reached below
  have within : n < (before ++ lines ++ after).length := by
    rw [List.append_assoc, List.length_append, List.length_append]
    omega
  have length : lines.length = passage.whole.length + 1 := by simp [lines]
  have shape : before ++ lines ++ after =
      before ++ passage.whole ++ (passage.last ++ rest) :: after := by simp [lines]
  by_cases onWhole : n < before.length + passage.whole.length
  · have tagged := hasRead.tag_of_whole inside reached onWhole ((passage.last ++ rest) :: after)
    rw [← shape] at tagged
    exact ⟨tag_eq_ite within (.inl tagged),
      fun isCode => absurd isCode (not_isCode_of_tag within tagged)⟩
  · have last : n = before.length + passage.whole.length := by omega
    obtain ⟨tagged, quiet⟩ := hasRead.tag_of_last valid notString rest after
    rw [← shape, ← last] at tagged quiet
    refine ⟨tag_eq_ite within tagged, fun isCode => ⟨by omega, ?_⟩⟩
    by_contra none
    refine not_isCode_of_tag within (quiet fun lexeme met => ?_) isCode
    rw [← Bool.not_eq_true]
    exact fun mayBeCode => none ⟨lexeme, met, mayBeCode⟩

end Scanner.HasRead

/-- A balanced text inside a block comment that nests leaves the depth as it was, over any
number of lines; at each point in between the depth is greater by the nesting level of the
point, and a closer behind the text lowers it by one or leaves the comment.  The lines of the
text are comments.  Only on the last one can there be code, and only behind that closer. -/
theorem nested_comment_balances {profile : Profile} {pair depth : Nat}
    {delimiters : BlockComment} (listed : profile.blockComments[pair]? = some delimiters)
    (nests : delimiters.Nests) (positive : 1 ≤ depth) {parts : List CommentPart}
    (balanced : delimiters.Balanced parts) :
    (∀ scanner : Scanner, scanner.mode = .block pair depth →
      (scanner.feedLines profile (delimiters.lines parts [])).mode = .block pair depth ∧
      (∀ before, before <+: parts →
        (∀ tail, ∃ rest later, delimiters.lines parts tail =
          (delimiters.passage before).whole ++
            ((delimiters.passage before).last ++ rest) :: later) ∧
        before.count .closer ≤ before.count .opener ∧
        scanner.ReadsUpTo profile (delimiters.passage before)
          (.block pair (depth + (before.count .opener - before.count .closer)))) ∧
      scanner.ReadsUpTo profile (delimiters.passage (parts ++ [.closer]))
        (.nested pair (depth - 1))) ∧
    ∀ before after : List Text,
      (Scanner.feedLines profile {} before).mode = .block pair depth →
      (∀ n, before.length ≤ n → n < before.length + (delimiters.lines parts []).length →
        (classify profile (before ++ delimiters.lines parts [] ++ after)).tags[n]? =
          some .comment) ∧
      ∀ rest,
        let lines := delimiters.lines parts (delimiters.closer ++ rest)
        let inventory := Inventory.ofLines profile (before ++ lines ++ after)
        ∀ n, before.length ≤ n → n < before.length + lines.length →
          (classify profile (before ++ lines ++ after)).tags[n]? =
            some (if inventory.IsCode profile n then .code else .comment) ∧
          (inventory.IsCode profile n → n + 1 = before.length + lines.length ∧
            ∃ lexeme ∈ profile.lexemes (.nested pair (depth - 1)) rest,
              lexeme.mayBeCode = true) := by
  constructor
  · intro scanner inside
    refine ⟨?_, ?_, (balanced.hasRead_closer nests listed positive inside).reads⟩
    · rw [BlockComment.lines, List.append_nil]
      exact (balanced.hasRead_whole nests listed positive inside).feedLine.1
    · intro point begins
      refine ⟨?_, balanced.count_le_of_prefix begins,
        (balanced.hasRead nests listed positive inside begins).reads⟩
      obtain ⟨behind, rfl⟩ := begins
      exact delimiters.exists_lines_append point behind
  · intro before after inside
    have hasRead := balanced.hasRead_whole nests listed positive inside
    constructor
    · intro n reached below
      have broken := hasRead.breakLine (nests.valid_block listed positive)
      rw [BlockComment.lines, List.append_nil] at below ⊢
      exact broken.tag_of_whole inside reached below after
    · intro rest
      have closed := balanced.hasRead_closer nests listed positive inside
      rw [delimiters.lines_closer]
      exact closed.tags_of_lines inside (nests.valid_nested listed (depth - 1))
        (Mode.nested_ne_string pair (depth - 1)) rest after

/-- Delimiters that touch each other are told apart: two openers, and then two closers, on a
line each, and a third closer with code behind it on the last line. -/
theorem nested_comment_balances_over_lines :
    let profile : Profile :=
      { name := "Rust", lineComments := Delimiters.slashes,
        blockComments := Delimiters.slashStarNested, quotes := Delimiters.double }
    let delimiters := Delimiters.nested "/*" "*/"
    let parts : List CommentPart :=
      [.opener, .opener, .lineBreak, .char 'é', .closer, .closer, .lineBreak, .char ' ']
    let before := ["x /*".toList]
    let scanner := Scanner.feedLines profile {} before
    let lines := delimiters.lines parts (delimiters.closer ++ " y".toList)
    let inventory := Inventory.ofLines profile (before ++ lines ++ [])
    profile.blockComments[0]? = some delimiters ∧ delimiters.Nests ∧ 1 ≤ 1 ∧
      delimiters.Balanced parts ∧ scanner.mode = .block 0 1 ∧
      lines = ["/*/*".toList, "é*/*/".toList, " */ y".toList] ∧
      (scanner.feedLines profile (delimiters.lines parts [])).mode = .block 0 1 ∧
      [CommentPart.opener, .opener] <+: parts ∧
      scanner.ReadsUpTo profile (delimiters.passage [.opener, .opener]) (.block 0 3) ∧
      (classify profile (before ++ delimiters.lines parts [] ++ [])).tags[3]? = some .comment ∧
      (classify profile (before ++ lines ++ [])).tags =
        [.code, .comment, .comment, .code] ∧
      ¬ inventory.IsCode profile 2 ∧ inventory.IsCode profile 3 ∧
      ∃ lexeme ∈ profile.lexemes .code " y".toList, lexeme.mayBeCode = true := by
  intro profile delimiters parts before scanner lines inventory
  have listed : profile.blockComments[0]? = some delimiters := rfl
  have nests : delimiters.Nests := by constructor <;> decide
  have innermost : delimiters.Balanced [.lineBreak, .char 'é'] :=
    .lineBreak (.char (by decide) (by decide) .nil)
  have behind : delimiters.Balanced [.lineBreak, .char ' '] :=
    .lineBreak (.char (by decide) (by decide) .nil)
  have balanced : delimiters.Balanced parts := .nested (.nested innermost .nil) behind
  have inside : scanner.mode = .block 0 1 := by decide +kernel
  have point : [CommentPart.opener, .opener] <+: parts := by decide
  have onLines :=
    nested_comment_balances listed nests (Nat.le_refl 1) balanced
  obtain ⟨comments, kinds⟩ := onLines.2 before [] inside
  have tags : (classify profile (before ++ lines ++ [])).tags =
      [.code, .comment, .comment, .code] := by decide +kernel
  have third := (kinds " y".toList 2 (by decide) (by decide +kernel)).1
  have fourth := kinds " y".toList 3 (by decide) (by decide +kernel)
  have notCode : ¬ inventory.IsCode profile 2 := by
    intro isCode
    rw [if_pos isCode, tags] at third
    contradiction
  have isCode : inventory.IsCode profile 3 := by
    by_contra notCode
    rw [if_neg notCode, tags] at fourth
    exact absurd fourth.1 (by decide)
  exact ⟨listed, nests, Nat.le_refl 1, balanced, inside, by decide +kernel,
    (onLines.1 scanner inside).1, point, ((onLines.1 scanner inside).2.1 _ point).2.2,
    comments 3 (by decide) (by decide +kernel), tags, notCode, isCode, (fourth.2 isCode).2⟩

end LineTally
