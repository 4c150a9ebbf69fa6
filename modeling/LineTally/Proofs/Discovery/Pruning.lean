import LineTally.Proofs.Discovery.Sought
import LineTally.Proofs.FileSystem.Pruning

/-!
# Searching a tree with directories left out

Where a search does not look into some directories, it makes a finding of each of them at
most.  If these directories are left out of the tree, those findings are missing and all
others stay (`walk_without`).
-/

namespace LineTally

variable {options : WalkOptions} {start : Path} {base trail : List Bytes}
  {marked : List Bytes → Bool} {stops : Finding → Bool} {budget : Nat}

/-- The search from `start`, which lies at `base`, finds nothing in a marked directory, and
`stops` tells the findings that it makes of marked directories from all others. -/
structure StopsAtMarked (options : WalkOptions) (start : Path) (base : List Bytes)
    (marked : List Bytes → Bool) (stops : Finding → Bool) : Prop where
  atMarked : ∀ {trail : List Bytes} {budget : Nat} (below : List (Bytes × Node)),
    (∀ name ∈ trail, IsName name) → trail ≠ [] → budget + trail.length = options.maxDepth + 1 →
    marked (base ++ trail) = true →
    ∀ finding ∈ walk options start budget trail.length (start.joinAll trail) (.directory below),
      stops finding = true
  elsewhere : ∀ {trail : List Bytes}, (∀ name ∈ trail, IsName name) → trail ≠ [] →
    marked (base ++ trail) = false →
    stops (.tooDeep (start.joinAll trail)) = false ∧ stops (.excluded (start.joinAll trail)) = false
  file : ∀ path, stops (.file path) = false
  unreadable : ∀ path error, stops (.unreadable path error) = false

/-- What comes of an entry when the marked directories are left out below it. -/
theorem examineEntry_without (separates : StopsAtMarked options start base marked stops)
    {directory : Path} {name : Bytes} {node : Node} {place : List Bytes}
    {search : Path → Node → List Finding}
    (below : ∀ entries, node = .directory entries →
      search (directory.join name) (node.without marked place) =
        (search (directory.join name) node).filter (!stops ·)) :
    examineEntry options start search directory (.entry name (node.without marked place)) =
      (examineEntry options start search directory (.entry name node)).filter (!stops ·) := by
  cases node with
  | directory entries =>
      rw [Node.without_directory] at below ⊢
      rw [examineEntry, examineEntry]
      split
      · rfl
      · exact below entries rfl
  | file content =>
      rw [Node.without_of_not_isDirectory rfl, examineEntry]
      split
      · simp [separates.file]
      · rfl
  | link target =>
      rw [Node.without_of_not_isDirectory rfl]
      rfl
  | device =>
      rw [Node.without_of_not_isDirectory rfl]
      rfl

/-- What comes of a marked directory is not kept. -/
theorem filter_examineEntry_of_marked (separates : StopsAtMarked options start base marked stops)
    {name : Bytes} {below : List (Bytes × Node)} (areNames : ∀ n ∈ trail ++ [name], IsName n)
    (fits : budget + (trail ++ [name]).length = options.maxDepth + 1)
    (isMarked : marked (base ++ (trail ++ [name])) = true) :
    (examineEntry options start (walk options start budget (trail.length + 1))
      (start.joinAll trail) (.entry name (.directory below))).filter (!stops ·) = [] := by
  have all := separates.atMarked below areNames (by simp) fits isMarked
  rw [List.length_append, List.length_singleton, Path.joinAll_append] at all
  rw [examineEntry, List.filter_eq_nil_iff]
  split
  · simp
  · intro finding member
    rw [all finding member]
    exact Bool.false_ne_true

/-- Without the marked directories just the findings are missing that are made of them. -/
theorem walk_without (separates : StopsAtMarked options start base marked stops) {node : Node}
    (isTree : node.IsTree) (areNames : ∀ name ∈ trail, IsName name)
    (fits : budget + trail.length = options.maxDepth + 1)
    (unmarked : trail ≠ [] → marked (base ++ trail) = false) :
    walk options start budget trail.length (start.joinAll trail)
        (node.without marked (base ++ trail)) =
      (walk options start budget trail.length (start.joinAll trail) node).filter (!stops ·) := by
  -- The trail grows by a name where the budget shrinks by one, so the place tells both.
  induction budget generalizing trail node with
  | zero =>
      have notStart : trail ≠ [] := by
        rintro rfl
        simp at fits
      simp [walk, (separates.elsewhere areNames notStart (unmarked notStart)).1]
  | succ budget inductionHypothesis =>
      rw [walk_succ, walk_succ]
      by_cases leftOut : (0 < trail.length && options.excludes (start.joinAll trail)) = true
      · have notStart : trail ≠ [] := by
          rintro rfl
          simp at leftOut
        rw [if_pos leftOut, if_pos leftOut]
        simp [(separates.elsewhere areNames notStart (unmarked notStart)).2]
      rw [if_neg leftOut, if_neg leftOut]
      by_cases tooLong : (start.joinAll trail).isTooLong = true
      · rw [if_pos tooLong, if_pos tooLong]
        simp [separates.unreadable]
      rw [if_neg tooLong, if_neg tooLong]
      cases node with
      | file content =>
          rw [Node.without_of_not_isDirectory rfl]
          simp [separates.unreadable]
      | link target =>
          rw [Node.without_of_not_isDirectory rfl]
          simp [separates.unreadable]
      | device =>
          rw [Node.without_of_not_isDirectory rfl]
          simp [separates.unreadable]
      | directory entries =>
          have areLonger : ∀ name node, (name, node) ∈ entries →
              ∀ n ∈ trail ++ [name], IsName n := by
            intro name node listed n member
            rcases List.mem_append.mp member with earlier | last
            · exact areNames n earlier
            · rw [List.mem_singleton.mp last]
              exact isTree.isName listed
          have fitsBelow : ∀ name, budget + (trail ++ [name]).length = options.maxDepth + 1 := by
            intro name
            rw [List.length_append, List.length_singleton, ← fits]
            exact (Nat.add_right_comm budget 1 trail.length).symm
          simp only [Node.without_directory, List.filter_flatMap]
          apply Node.flatMap_entriesWithout
          · intro name below listed isMarked
            rw [List.append_assoc] at isMarked
            exact filter_examineEntry_of_marked separates (areLonger name _ listed)
              (fitsBelow name) isMarked
          · intro name node listed unmarkedBelow
            rw [List.append_assoc] at unmarkedBelow ⊢
            apply examineEntry_without separates
            rintro below rfl
            have deeper := inductionHypothesis (isTree.child listed) (areLonger name _ listed)
              (fitsBelow name) fun _ => unmarkedBelow rfl
            rwa [List.length_append, List.length_singleton, Path.joinAll_append] at deeper

end LineTally
