import LineTally.Proofs.FileSystem.Tree

/-!
# Where paths lead without links

Where there are no links, the place to which a path leads is read off its steps alone
(`locateFrom_eq_foldl`): a name goes down, two dots go up, and a single dot stays.  A relative
path that never goes up leads where its components say, whether or not it starts with a dot
(`components_of_relative`).
-/

namespace LineTally

/-- Where one step leads, as its text says. -/
def stepFrom (here : List Bytes) (step : Bytes) : List Bytes :=
  if step = [dot] then here
  else if step = [dot, dot] then here.dropLast
  else here ++ [step]

@[simp]
theorem stepFrom_dot (here : List Bytes) : stepFrom here [dot] = here :=
  rfl

@[simp]
theorem stepFrom_dots (here : List Bytes) : stepFrom here [dot, dot] = here.dropLast :=
  rfl

theorem stepFrom_name {step : Bytes} (notDot : step ≠ [dot]) (notDots : step ≠ [dot, dot])
    (here : List Bytes) : stepFrom here step = here ++ [step] := by
  rw [stepFrom, if_neg notDot, if_neg notDots]

/-- Steps that never go up add their names. -/
theorem foldl_stepFrom {steps : List Bytes} (noParents : [dot, dot] ∉ steps)
    (here : List Bytes) :
    steps.foldl stepFrom here = here ++ steps.filter (· ≠ [dot]) := by
  induction steps generalizing here with
  | nil => simp
  | cons step rest inductionHypothesis =>
      rw [List.mem_cons, not_or] at noParents
      rw [List.foldl_cons, inductionHypothesis noParents.2]
      by_cases isDot : step = [dot]
      · subst isDot
        simp
      · rw [stepFrom_name isDot (Ne.symm noParents.1),
          List.filter_cons_of_pos (by simpa using isDot), List.append_assoc, List.singleton_append]

/-- Where the steps lead is the last place that they pass. -/
theorem foldl_mem_scanl (steps : List Bytes) (here : List Bytes) :
    steps.foldl stepFrom here ∈ steps.scanl stepFrom here := by
  induction steps generalizing here with
  | nil => simp
  | cons step rest inductionHypothesis =>
      rw [List.scanl_cons]
      exact List.mem_cons_of_mem _ (inductionHypothesis (stepFrom here step))

/-! ## The steps of a relative path -/

namespace Path

variable {path : Path}

theorem componentOf?_eq_some {piece : Bytes} {component : Component}
    (stands : componentOf? piece = some component) :
    component = .parent ∧ piece = [dot, dot] ∨
      component = .name piece ∧ piece ≠ [] ∧ piece ≠ [dot] ∧ piece ≠ [dot, dot] := by
  unfold componentOf? at stands
  split at stands
  · contradiction
  · next standsForOne =>
      rw [not_or] at standsForOne
      split at stands
      · next isDots =>
          cases stands
          exact .inl ⟨rfl, isDots⟩
      · next notDots =>
          cases stands
          exact .inr ⟨rfl, standsForOne.1, standsForOne.2, notDots⟩

theorem root_mem_components_iff : .root ∈ path.components ↔ path.isAbsolute = true := by
  have notInBody : Component.root ∉ path.pieces.filterMap componentOf? := by
    intro member
    obtain ⟨piece, _, stands⟩ := List.mem_filterMap.mp member
    obtain ⟨other, _⟩ | ⟨other, _⟩ := componentOf?_eq_some stands <;> cases other
  rw [components, List.mem_append, or_iff_left notInBody]
  cases path.isAbsolute with
  | true => simp
  | false =>
      rw [if_neg Bool.false_ne_true]
      split <;> simp

/-- Whether the path starts with a single dot. -/
def startsAtDot (path : Path) : Bool :=
  path.components.head? = some .current

/-- Without two dots every piece that counts is a name. -/
theorem filterMap_componentOf? {pieces : List Bytes} (noParents : [dot, dot] ∉ pieces) :
    pieces.filterMap componentOf? =
      ((pieces.filter (· ≠ [])).filter (· ≠ [dot])).map .name := by
  induction pieces with
  | nil => rfl
  | cons piece rest inductionHypothesis =>
      rw [List.mem_cons, not_or] at noParents
      by_cases isEmpty : piece = []
      · subst isEmpty
        exact inductionHypothesis noParents.2
      · by_cases isDot : piece = [dot]
        · subst isDot
          exact inductionHypothesis noParents.2
        · have stands : componentOf? piece = some (.name piece) := by
            simp [componentOf?, isEmpty, isDot, Ne.symm noParents.1]
          rw [List.filterMap_cons_some stands, inductionHypothesis noParents.2]
          simp [isEmpty, isDot]

theorem dots_not_mem_pieces (noParents : Component.parent ∉ path.components) :
    [dot, dot] ∉ path.pieces := by
  intro member
  apply noParents
  rw [components, List.mem_append]
  exact .inr (List.mem_filterMap.mpr ⟨_, member, rfl⟩)

theorem dots_not_mem_steps (noParents : Component.parent ∉ path.components) :
    [dot, dot] ∉ path.steps := by
  rw [steps, List.mem_append, not_or]
  constructor
  · intro member
    exact dots_not_mem_pieces noParents (List.mem_filter.mp member).1
  · split <;> simp

/-- A relative path that never goes up is a list of names, with a dot before it or none. -/
theorem components_of_relative (relative : path.isAbsolute = false)
    (noParents : Component.parent ∉ path.components) :
    path.components = (if path.startsAtDot then [.current] else []) ++
      (path.steps.filter (· ≠ [dot])).map .name := by
  have body := filterMap_componentOf? (dots_not_mem_pieces noParents)
  have steps : path.steps.filter (· ≠ [dot]) =
      (path.pieces.filter (· ≠ [])).filter (· ≠ [dot]) := by
    rw [Path.steps, List.filter_append]
    split <;> simp
  have whole : path.components =
      (if path.pieces.head? = some [dot] then [.current] else []) ++
        (path.steps.filter (· ≠ [dot])).map .name := by
    rw [components, relative, steps, ← body]
    rfl
  have starts : path.startsAtDot = decide (path.pieces.head? = some [dot]) := by
    rw [startsAtDot, whole]
    by_cases dotted : path.pieces.head? = some [dot]
    · simp [dotted]
    · cases path.steps.filter (· ≠ [dot]) <;> simp [dotted]
  rw [starts]
  simpa using whole

end Path

namespace Node

/-- Nothing at or below the node is a link. -/
def HasNoLinks (node : Node) : Prop :=
  ∀ names target, node.below? names ≠ some (.link target)

def isLink : Node → Bool
  | .link _ => true
  | _ => false

/-- There are no links below a node if no directory lists one. -/
theorem hasNoLinks_of_everyDirectory {node : Node} (notLink : node.isLink = false)
    (every : node.everyDirectory (fun _ entries => entries.all (!·.2.isLink)) [] = true) :
    node.HasNoLinks := by
  intro names target found
  rcases List.eq_nil_or_concat' names with rfl | ⟨front, name, rfl⟩
  · rw [below?_nil] at found
    cases found
    contradiction
  · rw [below?_append, Option.bind_eq_some_iff] at found
    obtain ⟨parent, foundParent, found⟩ := found
    rw [below?_singleton] at found
    obtain ⟨others, rfl⟩ := exists_directory_of_child? found
    have checked := check_of_everyDirectory every foundParent
    have passes := List.all_eq_true.mp checked _ (mem_of_child? found)
    contradiction

end Node

namespace FileSystem

variable {system : FileSystem} {path : Path} {here place : List Bytes}

/-- Where the steps of a path start. -/
def startOf (system : FileSystem) (path : Path) : List Bytes :=
  if path.isAbsolute then [] else system.workingDirectory

/-- Where the steps of a path lead, whether or not the system takes a path of its length. -/
def destination (system : FileSystem) (path : Path) : Except FileError (List Bytes) :=
  locateFrom system.root linkLimit (system.startOf path) path.steps

/-- A path that can be followed leads to its destination. -/
theorem destination_of_locate (located : system.locate path = .ok place) :
    system.destination path = .ok place := by
  rw [locate] at located
  split at located
  · contradiction
  · split at located
    · contradiction
    · split at located
      · contradiction
      · exact located

/-- Without links the steps lead where their names say. -/
theorem locateWith_eq_foldl {root : Node} (noLinks : root.HasNoLinks)
    {follow : List Bytes → List Bytes → Except FileError (List Bytes)} {steps : List Bytes}
    (located : locateWith root follow here steps = .ok place) :
    place = steps.foldl stepFrom here := by
  induction steps generalizing here with
  | nil =>
      rw [locateWith] at located
      cases located
      rfl
  | cons step rest inductionHypothesis =>
      rw [locateWith] at located
      split at located
      case h_2 => contradiction
      case h_1 entries atHere =>
        rw [List.foldl_cons]
        by_cases isDot : step = [dot]
        · subst isDot
          rw [stepFrom_dot]
          exact inductionHypothesis located
        · rw [if_neg isDot] at located
          by_cases isDots : step = [dot, dot]
          · subst isDots
            rw [stepFrom_dots]
            exact inductionHypothesis located
          · rw [stepFrom_name isDot isDots]
            rw [if_neg isDots] at located
            split at located
            · contradiction
            · split at located
              · next missing =>
                  cases rest with
                  | nil =>
                      cases located
                      rfl
                  | cons => contradiction
              · next target isLink =>
                  refine absurd ?_ (noLinks (here ++ [step]) target)
                  rw [Node.below?_append, atHere, Option.bind_some, Node.below?_singleton, isLink]
              · exact inductionHypothesis located

theorem locateFrom_eq_foldl {root : Node} (noLinks : root.HasNoLinks) {links : Nat}
    {steps : List Bytes} (located : locateFrom root links here steps = .ok place) :
    place = steps.foldl stepFrom here := by
  cases links with
  | zero => exact locateWith_eq_foldl noLinks located
  | succ links => exact locateWith_eq_foldl noLinks located

end FileSystem

end LineTally
