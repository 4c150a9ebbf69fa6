import LineTally.Proofs.FileSystem.Location
import Mathlib.Data.List.Infix

/-!
# Trees with directories left out

Directories that are marked by their places can be left out of a tree, with all that lies in
them.  What is outside of them is found as before (`below?_without`), and where there are no
links a path that keeps out of them leads where it led before (`find_without`).
-/

namespace LineTally

namespace Node

def isDirectory : Node → Bool
  | .directory _ => true
  | _ => false

theorem isDirectory_iff {node : Node} :
    node.isDirectory = true ↔ ∃ entries, node = .directory entries := by
  cases node <;> simp [isDirectory]

theorem any_isDirectory_iff {found : Option Node} :
    found.any isDirectory = true ↔ ∃ entries, found = some (.directory entries) := by
  cases found <;> simp [isDirectory_iff]

mutual

/-- The node without the directories at marked places; `trail` leads to it. -/
def without (marked : List Bytes → Bool) (trail : List Bytes) : Node → Node
  | .directory entries => .directory (entriesWithout marked trail entries)
  | .file content => .file content
  | .link target => .link target
  | .device => .device

/-- The entries without the directories at marked places. -/
def entriesWithout (marked : List Bytes → Bool) (trail : List Bytes) :
    List (Bytes × Node) → List (Bytes × Node)
  | [] => []
  | (name, node) :: rest =>
      if node.isDirectory && marked (trail ++ [name]) then entriesWithout marked trail rest
      else (name, node.without marked (trail ++ [name])) :: entriesWithout marked trail rest

end

variable {marked : List Bytes → Bool} {trail names : List Bytes} {node : Node} {name : Bytes}
  {entries : List (Bytes × Node)}

@[simp]
theorem without_directory (marked : List Bytes → Bool) (trail : List Bytes)
    (entries : List (Bytes × Node)) :
    (directory entries).without marked trail =
      .directory (entriesWithout marked trail entries) := by
  rw [without]

theorem without_of_not_isDirectory (notDirectory : node.isDirectory = false) :
    node.without marked trail = node := by
  cases node with
  | directory entries => contradiction
  | file content => rw [without]
  | link target => rw [without]
  | device => rw [without]

/-- To go through the entries that are kept is to go through all entries where nothing comes of
those that are left out. -/
theorem flatMap_entriesWithout {α : Type} {f g : Bytes × Node → List α}
    (leftOut : ∀ name below, (name, .directory below) ∈ entries →
      marked (trail ++ [name]) = true → g (name, .directory below) = [])
    (kept : ∀ name node, (name, node) ∈ entries →
      (node.isDirectory = true → marked (trail ++ [name]) = false) →
        f (name, node.without marked (trail ++ [name])) = g (name, node)) :
    (entriesWithout marked trail entries).flatMap f = entries.flatMap g := by
  induction entries with
  | nil =>
      rw [entriesWithout]
      rfl
  | cons entry rest inductionHypothesis =>
      obtain ⟨name, node⟩ := entry
      have later := inductionHypothesis
        (fun other below member => leftOut other below (List.mem_cons_of_mem _ member))
        (fun other node member => kept other node (List.mem_cons_of_mem _ member))
      rw [entriesWithout, List.flatMap_cons]
      by_cases isLeftOut : (node.isDirectory && marked (trail ++ [name])) = true
      · rw [if_pos isLeftOut, later]
        rw [Bool.and_eq_true] at isLeftOut
        obtain ⟨isDirectory, isMarked⟩ := isLeftOut
        obtain ⟨below, rfl⟩ := isDirectory_iff.mp isDirectory
        rw [leftOut name below List.mem_cons_self isMarked, List.nil_append]
      · have unmarked : node.isDirectory = true → marked (trail ++ [name]) = false := by
          intro isDirectory
          simpa [isDirectory] using isLeftOut
        rw [if_neg isLeftOut, List.flatMap_cons, later, kept name node List.mem_cons_self unmarked]

/-- An entry that is kept is found without the marked directories too. -/
theorem child?_without
    (kept : ∀ below, node.child? name = some (.directory below) →
      marked (trail ++ [name]) = false) :
    (node.without marked trail).child? name =
      (node.child? name).map (without marked (trail ++ [name])) := by
  cases node with
  | directory entries =>
      rw [without_directory]
      induction entries with
      | nil => rw [entriesWithout]; rfl
      | cons entry rest inductionHypothesis =>
          obtain ⟨other, node⟩ := entry
          rw [entriesWithout]
          by_cases named : other = name
          · subst named
            have here : (directory ((other, node) :: rest)).child? other = some node := by
              simp [child?]
            have notLeftOut : ¬ (node.isDirectory && marked (trail ++ [other])) = true := by
              rw [Bool.and_eq_true]
              rintro ⟨isDirectory, isMarked⟩
              obtain ⟨below, rfl⟩ := isDirectory_iff.mp isDirectory
              rw [kept below here] at isMarked
              contradiction
            rw [if_neg notLeftOut, here]
            simp [child?]
          · have later : (directory ((other, node) :: rest)).child? name =
                (directory rest).child? name := by
              rw [child?, child?, List.find?_cons_of_neg (by simpa using named)]
            rw [later] at kept ⊢
            rw [← inductionHypothesis kept]
            split
            · rfl
            · rw [child?, child?, List.find?_cons_of_neg (by simpa using named)]
  | file content => rw [without]; rfl
  | link target => rw [without]; rfl
  | device => rw [without]; rfl

/-- No directory to which the names or the first of them lead is marked. -/
def IsOutside (marked : List Bytes → Bool) (trail : List Bytes) (node : Node)
    (names : List Bytes) : Prop :=
  ∀ front, front <+: names → front ≠ [] → ∀ below, node.below? front = some (.directory below) →
    marked (trail ++ front) = false

instance (marked : List Bytes → Bool) (trail : List Bytes) (node : Node) (names : List Bytes) :
    Decidable (IsOutside marked trail node names) :=
  decidable_of_iff
    (∀ front ∈ names.inits, front ≠ [] → (node.below? front).any isDirectory = true →
      marked (trail ++ front) = false)
    (by simp only [IsOutside, List.mem_inits, any_isDirectory_iff, forall_exists_index])

/-- What lies outside of the marked directories is found without them too. -/
theorem below?_without (outside : IsOutside marked trail node names) :
    (node.without marked trail).below? names =
      (node.below? names).map (without marked (trail ++ names)) := by
  induction names generalizing node trail with
  | nil => simp
  | cons name names inductionHypothesis =>
      have kept : ∀ below, node.child? name = some (.directory below) →
          marked (trail ++ [name]) = false := by
        intro below found
        apply outside [name] (by simp) (List.cons_ne_nil _ _) below
        rw [below?_singleton, found]
      rw [below?_cons, below?_cons, child?_without kept]
      cases found : node.child? name with
      | none => rfl
      | some child =>
          have outsideLater : IsOutside marked (trail ++ [name]) child names := by
            intro front begins _ below foundBelow
            rw [List.append_assoc]
            apply outside (name :: front) (by simpa using begins) (List.cons_ne_nil _ _) below
            rw [below?_cons, found]
            exact foundBelow
          have later := inductionHypothesis outsideLater
          rw [List.append_assoc] at later
          exact later

end Node

namespace FileSystem

variable {system : FileSystem} {marked : List Bytes → Bool} {path : Path} {node : Node}

/-- The file system without the directories at marked places. -/
def without (system : FileSystem) (marked : List Bytes → Bool) : FileSystem :=
  { system with root := system.root.without marked [] }

/-- The place is in no marked directory, and is none. -/
abbrev IsOutside (system : FileSystem) (marked : List Bytes → Bool) (place : List Bytes) : Prop :=
  Node.IsOutside marked [] system.root place

/-- The path comes to no marked directory and into none, wherever it goes on its way. -/
def KeepsOutOf (system : FileSystem) (marked : List Bytes → Bool) (path : Path) : Prop :=
  ∀ place ∈ path.steps.scanl stepFrom (system.startOf path), system.IsOutside marked place

instance (system : FileSystem) (marked : List Bytes → Bool) (path : Path) :
    Decidable (system.KeepsOutOf marked path) :=
  inferInstanceAs (Decidable (∀ place ∈ path.steps.scanl stepFrom (system.startOf path),
    system.IsOutside marked place))

theorem below?_without {place : List Bytes} (outside : system.IsOutside marked place) :
    (system.without marked).root.below? place =
      (system.root.below? place).map (Node.without marked place) :=
  Node.below?_without outside

/-- Without links, steps that keep out of the marked directories lead to the same place. -/
theorem locateWith_without (noLinks : system.root.HasNoLinks)
    {follow other : List Bytes → List Bytes → Except FileError (List Bytes)}
    {here steps : List Bytes}
    (outside : ∀ place ∈ steps.scanl stepFrom here, system.IsOutside marked place) :
    locateWith (system.without marked).root other here steps =
      locateWith system.root follow here steps := by
  induction steps generalizing here with
  | nil => rw [locateWith, locateWith]
  | cons step rest inductionHypothesis =>
      rw [List.scanl_cons, List.forall_mem_cons] at outside
      obtain ⟨outsideHere, outsideLater⟩ := outside
      rw [locateWith, locateWith, below?_without outsideHere]
      cases atHere : system.root.below? here with
      | none => rfl
      | some node =>
          cases node with
          | file content => rw [Option.map_some, Node.without_of_not_isDirectory rfl]
          | link target => rw [Option.map_some, Node.without_of_not_isDirectory rfl]
          | device => rw [Option.map_some, Node.without_of_not_isDirectory rfl]
          | directory entries =>
              simp only [Option.map_some, Node.without_directory]
              by_cases isDot : step = [dot]
              · subst isDot
                exact inductionHypothesis outsideLater
              by_cases isDots : step = [dot, dot]
              · subst isDots
                exact inductionHypothesis outsideLater
              rw [stepFrom_name isDot isDots] at outsideLater
              have below : ∀ child, (Node.directory entries).child? step = some child →
                  system.root.below? (here ++ [step]) = some child := by
                intro child found
                rw [Node.below?_append, atHere, Option.bind_some, Node.below?_singleton, found]
              have kept : ∀ others,
                  (Node.directory entries).child? step = some (.directory others) →
                    marked (here ++ [step]) = false := by
                intro others found
                have outsideThere := outsideLater (here ++ [step]) (by cases rest <;> simp)
                exact outsideThere _ (List.prefix_refl _) (by simp) others (below _ found)
              have child := Node.child?_without kept
              rw [Node.without_directory] at child
              rw [if_neg isDot, if_neg isDots, if_neg isDot, if_neg isDots, child]
              split
              · rfl
              · cases found : (Node.directory entries).child? step with
                | none => rfl
                | some node =>
                    cases node with
                    | link target => exact absurd (below _ found) (noLinks _ target)
                    | directory others =>
                        simp only [Option.map_some, Node.without_directory]
                        exact inductionHypothesis outsideLater
                    | file content =>
                        rw [Option.map_some, Node.without_of_not_isDirectory rfl]
                        exact inductionHypothesis outsideLater
                    | device =>
                        rw [Option.map_some, Node.without_of_not_isDirectory rfl]
                        exact inductionHypothesis outsideLater

theorem locate_without (noLinks : system.root.HasNoLinks)
    (outside : system.KeepsOutOf marked path) :
    (system.without marked).locate path = system.locate path := by
  have alike : ∀ links, locateFrom (system.without marked).root links (system.startOf path)
      path.steps = locateFrom system.root links (system.startOf path) path.steps := by
    intro links
    cases links with
    | zero => exact locateWith_without noLinks outside
    | succ links => exact locateWith_without noLinks outside
  have here := alike linkLimit
  rw [startOf] at here
  rw [locate, locate, ← here]
  rfl

/-- What a path leads to that keeps out of the marked directories is the same without them,
but for marked directories in it. -/
theorem find_without (noLinks : system.root.HasNoLinks) (outside : system.KeepsOutOf marked path) :
    (∃ error, system.find path = .error error ∧ (system.without marked).find path = .error error) ∨
      ∃ place node, system.locate path = .ok place ∧ system.find path = .ok node ∧
        (system.without marked).find path = .ok (node.without marked place) := by
  rw [find, find, locate_without noLinks outside]
  cases located : system.locate path with
  | error error => exact .inl ⟨error, rfl, rfl⟩
  | ok place =>
      have destination := locateFrom_eq_foldl noLinks (destination_of_locate located)
      have outsideThere : system.IsOutside marked place := by
        apply outside
        rw [destination]
        exact foldl_mem_scanl _ _
      simp only [bind, Except.bind, below?_without outsideThere]
      cases system.root.below? place with
      | none => exact .inl ⟨_, rfl, rfl⟩
      | some node => exact .inr ⟨place, node, rfl, rfl, rfl⟩

end FileSystem

end LineTally
