import LineTally.FileSystem.Basic
import LineTally.Proofs.Path.Joining
import Mathlib.Data.List.Nodup

/-!
# Trees of files

In a tree of files each directory lists every name once, and the names are such that they
can stand in a path.  Then what lies below a directory is found both by going through its
entries and by following names (`child?_eq_some_iff`).
-/

namespace LineTally

namespace Node

variable {node : Node} {name : Bytes} {names : List Bytes} {entries : List (Bytes × Node)}

/-- Each directory lists every name once, and only names that can stand in a path. -/
def IsTree (node : Node) : Prop :=
  ∀ names entries, node.below? names = some (.directory entries) →
    (entries.map Prod.fst).Nodup ∧ ∀ entry ∈ entries, IsName entry.1

/-- No directory has a path that is too long, if the node is at the given path. -/
def ReadableAt (path : Path) (node : Node) : Prop :=
  ∀ names entries, node.below? names = some (.directory entries) →
    (path.joinAll names).isTooLong = false

/-! ## Following names -/

@[simp]
theorem below?_nil (node : Node) : node.below? [] = some node := by
  cases node <;> rfl

@[simp]
theorem below?_cons (name : Bytes) (names : List Bytes) (node : Node) :
    node.below? (name :: names) = (node.child? name).bind (below? names) := by
  cases node <;> rfl

theorem below?_singleton (name : Bytes) (node : Node) : node.below? [name] = node.child? name := by
  rw [below?_cons, show below? [] = some from funext below?_nil]
  cases node.child? name <;> rfl

theorem below?_append (names later : List Bytes) (node : Node) :
    node.below? (names ++ later) = (node.below? names).bind (below? later) := by
  induction names generalizing node with
  | nil => simp
  | cons name names inductionHypothesis =>
      rw [List.cons_append, below?_cons, below?_cons, Option.bind_assoc]
      congr 1
      funext child
      exact inductionHypothesis child

/-- Only a directory has something below it. -/
theorem exists_directory_of_child? {child : Node} (found : node.child? name = some child) :
    ∃ entries, node = .directory entries := by
  cases node with
  | directory entries => exact ⟨entries, rfl⟩
  | file => contradiction
  | link => contradiction
  | device => contradiction

theorem exists_directory_of_below? {child : Node} (notHere : names ≠ [])
    (found : node.below? names = some child) : ∃ entries, node = .directory entries := by
  obtain ⟨name, later, rfl⟩ := List.exists_cons_of_ne_nil notHere
  rw [below?_cons, Option.bind_eq_some_iff] at found
  obtain ⟨_, found, _⟩ := found
  exact exists_directory_of_child? found

/-! ## Entries of a tree -/

theorem IsTree.below (isTree : node.IsTree) {later : Node}
    (found : node.below? names = some later) : later.IsTree := by
  intro others entries found'
  apply isTree (names ++ others)
  rw [below?_append, found]
  exact found'

theorem IsTree.nodup (isTree : (directory entries).IsTree) : (entries.map Prod.fst).Nodup :=
  (isTree [] entries (below?_nil _)).1

theorem IsTree.isName (isTree : (directory entries).IsTree) {entry : Bytes × Node}
    (listed : entry ∈ entries) : IsName entry.1 :=
  (isTree [] entries (below?_nil _)).2 entry listed

/-- What is found by its name is listed under it. -/
theorem mem_of_child? {child : Node} (found : (directory entries).child? name = some child) :
    (name, child) ∈ entries := by
  rw [child?, Option.map_eq_some_iff] at found
  obtain ⟨entry, found, rfl⟩ := found
  have passes := List.find?_some found
  have named : entry.1 = name := of_decide_eq_true passes
  rw [← named]
  exact List.mem_of_find?_eq_some found

/-- If every name is listed once, an entry is found by its name. -/
theorem child?_eq_some_iff (nodup : (entries.map Prod.fst).Nodup) {child : Node} :
    (directory entries).child? name = some child ↔ (name, child) ∈ entries := by
  refine ⟨mem_of_child?, fun listed => ?_⟩
  rw [child?, Option.map_eq_some_iff]
  refine ⟨(name, child), ?_, rfl⟩
  induction entries with
  | nil => contradiction
  | cons entry rest inductionHypothesis =>
      rw [List.map_cons, List.nodup_cons] at nodup
      rcases List.mem_cons.mp listed with rfl | later
      · rw [List.find?_cons_of_pos (by simp)]
      · have different : entry.1 ≠ name := by
          rintro rfl
          exact nodup.1 (List.mem_map.mpr ⟨_, later, rfl⟩)
        rw [List.find?_cons_of_neg (by simpa using different)]
        exact inductionHypothesis nodup.2 later

theorem IsTree.below?_of_mem (isTree : (directory entries).IsTree) {child : Node}
    (listed : (name, child) ∈ entries) (later : List Bytes) :
    (directory entries).below? (name :: later) = child.below? later := by
  rw [below?_cons, (child?_eq_some_iff isTree.nodup).mpr listed]
  rfl

theorem IsTree.child (isTree : (directory entries).IsTree) {child : Node}
    (listed : (name, child) ∈ entries) : child.IsTree := by
  have found : (directory entries).below? [name] = some child := by
    rw [below?_singleton, child?_eq_some_iff isTree.nodup]
    exact listed
  exact isTree.below found

/-- The names that lead somewhere can stand in a path. -/
theorem IsTree.areNames (isTree : node.IsTree) {later : Node}
    (found : node.below? names = some later) : ∀ n ∈ names, IsName n := by
  induction names generalizing node with
  | nil => simp
  | cons name names inductionHypothesis =>
      obtain ⟨entries, rfl⟩ := exists_directory_of_below? (List.cons_ne_nil _ _) found
      rw [below?_cons, Option.bind_eq_some_iff] at found
      obtain ⟨child, found, foundLater⟩ := found
      have listed := (child?_eq_some_iff isTree.nodup).mp found
      rw [List.forall_mem_cons]
      exact ⟨isTree.isName listed, inductionHypothesis (isTree.child listed) foundLater⟩

theorem ReadableAt.here {path : Path} (readable : (directory entries).ReadableAt path) :
    path.isTooLong = false :=
  readable [] entries (below?_nil _)

theorem ReadableAt.child {path : Path} {child : Node}
    (readable : (directory entries).ReadableAt path) (isTree : (directory entries).IsTree)
    (listed : (name, child) ∈ entries) : child.ReadableAt (path.join name) := by
  intro names others found
  apply readable (name :: names) others
  rw [isTree.below?_of_mem listed, found]

/-! ## Checking a tree -/

mutual

/-- Whether every directory, with the names that lead to it, passes a check; `trail` leads
to the node. -/
def everyDirectory (check : List Bytes → List (Bytes × Node) → Bool) (trail : List Bytes) :
    Node → Bool
  | .directory entries => check trail entries && everyEntry check trail entries
  | _ => true

/-- Whether every directory among the entries and below passes a check. -/
def everyEntry (check : List Bytes → List (Bytes × Node) → Bool) (trail : List Bytes) :
    List (Bytes × Node) → Bool
  | [] => true
  | (name, node) :: rest =>
      node.everyDirectory check (trail ++ [name]) && everyEntry check trail rest

end

variable {check : List Bytes → List (Bytes × Node) → Bool} {trail : List Bytes}

theorem everyDirectory_of_everyEntry (every : everyEntry check trail entries = true)
    (listed : (name, node) ∈ entries) : node.everyDirectory check (trail ++ [name]) = true := by
  induction entries with
  | nil => contradiction
  | cons entry rest inductionHypothesis =>
      rw [everyEntry, Bool.and_eq_true] at every
      rcases List.mem_cons.mp listed with rfl | later
      · exact every.1
      · exact inductionHypothesis every.2 later

theorem check_of_everyDirectory (every : node.everyDirectory check trail = true)
    (found : node.below? names = some (.directory entries)) :
    check (trail ++ names) entries = true := by
  induction names generalizing node trail with
  | nil =>
      rw [below?_nil, Option.some.injEq] at found
      subst found
      rw [everyDirectory, Bool.and_eq_true] at every
      rw [List.append_nil]
      exact every.1
  | cons name names inductionHypothesis =>
      obtain ⟨others, rfl⟩ := exists_directory_of_below? (List.cons_ne_nil _ _) found
      rw [below?_cons, Option.bind_eq_some_iff] at found
      obtain ⟨child, found, foundLater⟩ := found
      have listed := mem_of_child? found
      rw [everyDirectory, Bool.and_eq_true] at every
      have below := inductionHypothesis (everyDirectory_of_everyEntry every.2 listed) foundLater
      rwa [List.append_assoc, List.singleton_append] at below

theorem isTree_of_everyDirectory
    (every : node.everyDirectory
      (fun _ entries => (entries.map Prod.fst).Nodup && entries.all (IsName ·.1)) [] = true) :
    node.IsTree := by
  intro names entries found
  have checked := check_of_everyDirectory every found
  rw [Bool.and_eq_true, decide_eq_true_eq, List.all_eq_true] at checked
  exact ⟨checked.1, fun entry listed => of_decide_eq_true (checked.2 entry listed)⟩

theorem readableAt_of_everyDirectory {path : Path}
    (every : node.everyDirectory (fun names _ => !(path.joinAll names).isTooLong) [] = true) :
    node.ReadableAt path := by
  intro names entries found
  have checked := check_of_everyDirectory every found
  rwa [List.nil_append, Bool.not_eq_true'] at checked

end Node

namespace FileSystem

variable {system : FileSystem} {path : Path} {node : Node}

/-- What a path leads to is a part of the file system. -/
theorem exists_below?_of_find (found : system.find path = .ok node) :
    ∃ place, system.root.below? place = some node := by
  unfold find at found
  cases located : system.locate path with
  | error error =>
      rw [located] at found
      contradiction
  | ok place =>
      rw [located] at found
      refine ⟨place, ?_⟩
      cases there : system.root.below? place with
      | none => simp [there, bind, Except.bind] at found
      | some other => simpa [there, bind, Except.bind] using found

theorem isTree_of_find (isTree : system.root.IsTree) (found : system.find path = .ok node) :
    node.IsTree := by
  obtain ⟨place, foundThere⟩ := exists_below?_of_find found
  exact isTree.below foundThere

/-- The empty path leads nowhere. -/
theorem bytes_ne_nil_of_find (found : system.find path = .ok node) : path.bytes ≠ [] := by
  intro empty
  have nowhere : system.locate path = .error .notFound := by
    simp [locate, empty]
  rw [find, nowhere] at found
  contradiction

/-- Whether no directory that can be reached from the given paths has too long a path. -/
theorem readable_of_everyDirectory {paths : List Path}
    (every : (paths.all fun root => (system.find root).toOption.all
      (·.everyDirectory (fun names _ => !(root.joinAll names).isTooLong) [])) = true) :
    ∀ root ∈ paths, ∀ node, system.find root = .ok node → node.ReadableAt root := by
  intro root given node found
  have checked := List.all_eq_true.mp every root given
  rw [found] at checked
  exact Node.readableAt_of_everyDirectory checked

end FileSystem

end LineTally
