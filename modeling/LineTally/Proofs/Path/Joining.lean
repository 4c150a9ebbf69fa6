import LineTally.Path.Basic
import Mathlib.Data.List.Basic

/-!
# Joined paths

The entries of a directory get their paths by `join`, which depends on how the path of
the directory is written: it may be empty, end in slashes or in dots.  However it is
written, `join` adds one component (`components_join`), and what it has added is what
`stripPrefix?` gives back (`stripPrefix?_joinAll`).
-/

namespace LineTally

/-- A name that an entry of a directory can have. -/
def IsName (name : Bytes) : Prop :=
  name ≠ [] ∧ name ≠ [dot] ∧ name ≠ [dot, dot] ∧ slash ∉ name

instance : DecidablePred IsName :=
  fun _ => inferInstanceAs (Decidable (_ ∧ _))

namespace IsName

variable {name : Bytes}

theorem componentOf? (isName : IsName name) : Path.componentOf? name = some (.name name) := by
  obtain ⟨notEmpty, notDot, notDots, _⟩ := isName
  simp [Path.componentOf?, notEmpty, notDot, notDots]

theorem isComponent (isName : IsName name) : Path.isComponent name = true := by
  rw [Path.isComponent, isName.componentOf?]
  rfl

theorem splitOnP_slash (isName : IsName name) : name.splitOnP (· = slash) = [name] := by
  apply List.splitOnP_eq_singleton
  intro b member
  apply decide_eq_false
  rintro rfl
  exact isName.2.2.2 member

theorem head?_ne_slash (isName : IsName name) : name.head? ≠ some slash := by
  intro starts
  exact isName.2.2.2 (List.mem_of_mem_head? starts)

theorem getLast?_ne_slash (isName : IsName name) : name.getLast? ≠ some slash := by
  intro ends
  exact isName.2.2.2 (List.mem_of_getLast? ends)

end IsName

namespace Path

variable {path : Path} {name : Bytes}

/-- The text of the path ends inside a component. -/
def EndsOpen (path : Path) : Prop :=
  path.bytes ≠ [] ∧ path.bytes.getLast? ≠ some slash

theorem join_of_endsOpen (endsOpen : path.EndsOpen) (name : Bytes) :
    path.join name = ⟨path.bytes ++ slash :: name⟩ := by
  rw [join, if_neg (not_or.mpr endsOpen)]

theorem join_of_not_endsOpen (notOpen : ¬ path.EndsOpen) (name : Bytes) :
    path.join name = ⟨path.bytes ++ name⟩ := by
  rw [EndsOpen, ne_eq, ne_eq, ← not_or, Classical.not_not] at notOpen
  rw [join, if_pos notOpen]

theorem endsOpen_join (path : Path) (isName : IsName name) : (path.join name).EndsOpen := by
  have notEmpty := isName.1
  by_cases endsOpen : path.EndsOpen
  · rw [join_of_endsOpen endsOpen]
    refine ⟨by simp, ?_⟩
    rw [List.getLast?_append_of_ne_nil _ (List.cons_ne_nil _ _),
      List.getLast?_cons_of_ne_nil notEmpty]
    exact isName.getLast?_ne_slash
  · rw [join_of_not_endsOpen endsOpen]
    refine ⟨by simp [notEmpty], ?_⟩
    rw [List.getLast?_append_of_ne_nil _ notEmpty]
    exact isName.getLast?_ne_slash

theorem pieces_join_of_endsOpen (endsOpen : path.EndsOpen) (isName : IsName name) :
    (path.join name).pieces = path.pieces ++ [name] := by
  rw [join_of_endsOpen endsOpen, pieces, List.splitOnP_append_cons _ _ (by simp),
    isName.splitOnP_slash]
  rfl

/-- A new last piece takes the place of an empty one. -/
theorem exists_pieces_join (notEmpty : path.bytes ≠ []) (isName : IsName name) :
    ∃ front, front ≠ [] ∧ (path.join name).pieces = front ++ [name] ∧
      (path.pieces = front ∨ path.pieces = front ++ [[]]) := by
  by_cases endsOpen : path.EndsOpen
  · exact ⟨path.pieces, List.splitOnP_ne_nil _ _, pieces_join_of_endsOpen endsOpen isName, .inl rfl⟩
  · have ends : path.bytes.getLast? = some slash :=
      Classical.byContradiction fun not => endsOpen ⟨notEmpty, not⟩
    obtain ⟨before, whole⟩ := List.getLast?_eq_some_iff.mp ends
    refine ⟨before.splitOnP (· = slash), List.splitOnP_ne_nil _ _, ?_, .inr ?_⟩
    · rw [join_of_not_endsOpen endsOpen, pieces, whole, List.append_assoc, List.singleton_append,
        List.splitOnP_append_cons _ _ (by simp), isName.splitOnP_slash]
    · rw [pieces, whole, List.splitOnP_append_cons _ _ (by simp)]
      rfl

theorem isAbsolute_join (notEmpty : path.bytes ≠ []) (name : Bytes) :
    (path.join name).isAbsolute = path.isAbsolute := by
  obtain ⟨b, rest, whole⟩ := List.exists_cons_of_ne_nil notEmpty
  unfold join
  split <;> simp [isAbsolute, whole]

/-- The name of an entry is one more component. -/
theorem components_join (path : Path) (isName : IsName name) :
    (path.join name).components = path.components ++ [.name name] := by
  by_cases notEmpty : path.bytes = []
  · have alone : path.join name = ⟨name⟩ := by
      rw [join, if_pos (.inl notEmpty), notEmpty, List.nil_append]
    have relative : (Path.mk name).isAbsolute = false := decide_eq_false isName.head?_ne_slash
    have onePiece : (Path.mk name).pieces = [name] := isName.splitOnP_slash
    have nothing : path.components = [] := by
      obtain ⟨bytes⟩ := path
      cases notEmpty
      rfl
    rw [alone, nothing, components, relative, onePiece]
    simp [isName.2.1, isName.componentOf?]
  · obtain ⟨front, frontNotEmpty, joined, original⟩ := exists_pieces_join notEmpty isName
    have firstEq : (front ++ [name]).head? = path.pieces.head? := by
      obtain ⟨piece, others, rfl⟩ := List.exists_cons_of_ne_nil frontNotEmpty
      rcases original with same | same <;> rw [same] <;> rfl
    have bodyEq : front.filterMap componentOf? = path.pieces.filterMap componentOf? := by
      rcases original with same | same
      · rw [same]
      · rw [same, List.filterMap_append]
        exact (List.append_nil _).symm
    rw [components, components, isAbsolute_join notEmpty, joined, firstEq, List.filterMap_append,
      bodyEq, List.filterMap_cons_some isName.componentOf?, List.append_assoc]
    rfl

theorem fileName?_join (path : Path) (isName : IsName name) :
    (path.join name).fileName? = some name := by
  rw [fileName?, components_join path isName, List.getLast?_concat]

/-! ## Several names -/

/-- The path to which the names lead, one after the other. -/
def joinAll (path : Path) (names : List Bytes) : Path :=
  names.foldl join path

@[simp]
theorem joinAll_nil (path : Path) : path.joinAll [] = path :=
  rfl

@[simp]
theorem joinAll_cons (path : Path) (name : Bytes) (names : List Bytes) :
    path.joinAll (name :: names) = (path.join name).joinAll names :=
  rfl

theorem joinAll_append (path : Path) (names later : List Bytes) :
    path.joinAll (names ++ later) = (path.joinAll names).joinAll later :=
  List.foldl_append

theorem components_joinAll (path : Path) {names : List Bytes} (areNames : ∀ n ∈ names, IsName n) :
    (path.joinAll names).components = path.components ++ names.map .name := by
  induction names generalizing path with
  | nil => simp
  | cons name names inductionHypothesis =>
      obtain ⟨isName, areNames⟩ := List.forall_mem_cons.mp areNames
      rw [joinAll_cons, inductionHypothesis _ areNames, components_join path isName]
      simp

theorem pieces_joinAll (endsOpen : path.EndsOpen) {names : List Bytes}
    (areNames : ∀ n ∈ names, IsName n) :
    (path.joinAll names).pieces = path.pieces ++ names := by
  induction names generalizing path with
  | nil => simp
  | cons name names inductionHypothesis =>
      obtain ⟨isName, areNames⟩ := List.forall_mem_cons.mp areNames
      rw [joinAll_cons, inductionHypothesis (endsOpen_join path isName) areNames,
        pieces_join_of_endsOpen endsOpen isName]
      simp

/-! ## What has been added is left over -/

/-- Behind all components of some pieces at most pieces are left that stand for none. -/
theorem exists_dropComponents (front rest : List Bytes) :
    ∃ trailing, (∀ piece ∈ trailing, isComponent piece = false) ∧
      dropComponents (front.filter isComponent).length (front ++ rest) = trailing ++ rest := by
  induction front with
  | nil => exact ⟨[], by simp, by simp [dropComponents]⟩
  | cons piece front inductionHypothesis =>
      obtain ⟨trailing, noComponent, dropped⟩ := inductionHypothesis
      by_cases counts : isComponent piece = true
      · refine ⟨trailing, noComponent, ?_⟩
        rw [List.filter_cons_of_pos counts, List.length_cons, List.cons_append, dropComponents,
          if_pos counts, dropped]
      · rw [List.filter_cons_of_neg counts, List.cons_append]
        cases count : (front.filter isComponent).length with
        | zero =>
            have noneLeft := List.filter_eq_nil_iff.mp (List.length_eq_zero_iff.mp count)
            refine ⟨piece :: front, ?_, rfl⟩
            intro other member
            rcases List.mem_cons.mp member with rfl | later
            · exact eq_false_of_ne_true counts
            · exact eq_false_of_ne_true (noneLeft other later)
        | succ count' =>
            refine ⟨trailing, noComponent, ?_⟩
            rw [dropComponents, if_neg counts, ← count, dropped]

theorem dropWhile_names {names : List Bytes} (areNames : ∀ n ∈ names, IsName n) :
    names.dropWhile (!isComponent ·) = names := by
  cases names with
  | nil => rfl
  | cons name names =>
      have counts := (areNames name List.mem_cons_self).isComponent
      rw [List.dropWhile_cons_of_neg (by simp [counts])]

theorem trimPieces_append {trailing names : List Bytes}
    (noComponent : ∀ piece ∈ trailing, isComponent piece = false)
    (areNames : ∀ n ∈ names, IsName n) : trimPieces (trailing ++ names) = names := by
  have skipped : ∀ piece ∈ trailing, (!isComponent piece) = true := by
    intro piece member
    rw [noComponent piece member]
    rfl
  have reversed : ∀ n ∈ names.reverse, IsName n := by
    intro n member
    exact areNames n (List.mem_reverse.mp member)
  rw [trimPieces, List.dropWhile_append_of_pos skipped, dropWhile_names areNames,
    dropWhile_names reversed, List.reverse_reverse]

/-- However the path of a directory is written, the path of what lies below it is, from
there, the names that lead to it. -/
theorem stripPrefix?_joinAll (notEmpty : path.bytes ≠ []) {names : List Bytes} (some' : names ≠ [])
    (areNames : ∀ n ∈ names, IsName n) :
    (path.joinAll names).stripPrefix? path = some ⟨[slash].intercalate names⟩ := by
  have begins : path.components.isPrefixOf (path.joinAll names).components = true := by
    rw [List.isPrefixOf_iff_prefix, components_joinAll path areNames]
    exact List.prefix_append _ _
  obtain ⟨name, later, rfl⟩ := List.exists_cons_of_ne_nil some'
  obtain ⟨isName, areLater⟩ := List.forall_mem_cons.mp areNames
  obtain ⟨front, _, joined, original⟩ := exists_pieces_join notEmpty isName
  -- An empty piece at the end of `path` is gone once a name has been joined, but it is no
  -- component, so as many components are dropped as `path` has.
  have count : (path.pieces.filter isComponent).length = (front.filter isComponent).length := by
    rcases original with same | same
    · rw [same]
    · rw [same, List.filter_append, show [[]].filter isComponent = [] from rfl, List.append_nil]
  have whole : (path.joinAll (name :: later)).pieces = front ++ (name :: later) := by
    rw [joinAll_cons, pieces_joinAll (endsOpen_join path isName) areLater, joined,
      List.append_assoc, List.singleton_append]
  obtain ⟨trailing, noComponent, dropped⟩ := exists_dropComponents front (name :: later)
  rw [stripPrefix?, if_neg notEmpty, if_pos begins]
  simp only [whole, count, dropped, trimPieces_append noComponent areNames]

end Path

end LineTally
