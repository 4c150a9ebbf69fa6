import LineTally.Text.Basic

/-!
# Kinds of lines

Every physical line is of one of three kinds; counts say how many there are of
each.  Whatever is counted is counted in words of 64 bits, and a sum that does not
fit wraps around.
-/

namespace LineTally

/-- The kind of one physical line. -/
inductive LineKind where
  | blank
  | comment
  | code
deriving DecidableEq, Repr

/-- How many lines of each kind there are. -/
@[ext]
structure LineCounts where
  blank : UInt64 := 0
  comment : UInt64 := 0
  code : UInt64 := 0
deriving DecidableEq, Repr

namespace LineCounts

/-- The number of lines of any kind. -/
def total (counts : LineCounts) : UInt64 :=
  counts.blank + counts.comment + counts.code

instance : Zero LineCounts :=
  ⟨{}⟩

instance : Add LineCounts :=
  ⟨fun a b => ⟨a.blank + b.blank, a.comment + b.comment, a.code + b.code⟩⟩

@[simp]
theorem blank_add (a b : LineCounts) : (a + b).blank = a.blank + b.blank :=
  rfl

@[simp]
theorem comment_add (a b : LineCounts) : (a + b).comment = a.comment + b.comment :=
  rfl

@[simp]
theorem code_add (a b : LineCounts) : (a + b).code = a.code + b.code :=
  rfl

@[simp]
theorem total_zero : total 0 = 0 :=
  rfl

@[simp]
theorem total_add (a b : LineCounts) : (a + b).total = a.total + b.total := by
  simp only [total, blank_add, comment_add, code_add]
  ac_rfl

theorem add_assoc (a b c : LineCounts) : a + b + c = a + (b + c) := by
  ext1 <;> simp [UInt64.add_assoc]

@[simp]
theorem zero_add (a : LineCounts) : 0 + a = a := by
  ext1 <;> exact UInt64.zero_add _

@[simp]
theorem add_zero (a : LineCounts) : a + 0 = a := by
  ext1 <;> exact UInt64.add_zero _

/-- One line. -/
def single : LineKind → LineCounts
  | .blank => { blank := 1 }
  | .comment => { comment := 1 }
  | .code => { code := 1 }

/-- The counts of a list of lines. -/
def ofKinds (kinds : List LineKind) : LineCounts :=
  kinds.foldl (fun counts kind => counts + single kind) 0

@[simp]
theorem ofKinds_nil : ofKinds [] = 0 :=
  rfl

theorem foldl_single (kinds : List LineKind) (counts : LineCounts) :
    kinds.foldl (fun counts kind => counts + single kind) counts = counts + ofKinds kinds := by
  induction kinds generalizing counts with
  | nil => exact (add_zero counts).symm
  | cons kind rest inductionHypothesis =>
      simp only [ofKinds, List.foldl_cons] at inductionHypothesis ⊢
      rw [inductionHypothesis, inductionHypothesis (0 + single kind), zero_add, add_assoc]

/-- The lines of two files together. -/
theorem ofKinds_append (first second : List LineKind) :
    ofKinds (first ++ second) = ofKinds first + ofKinds second := by
  rw [ofKinds, List.foldl_append, foldl_single]
  rfl

/-- Every line is counted once. -/
theorem total_ofKinds (kinds : List LineKind) :
    (ofKinds kinds).total = UInt64.ofNat kinds.length := by
  induction kinds with
  | nil => rfl
  | cons kind rest inductionHypothesis =>
      rw [← List.singleton_append, ofKinds_append, total_add, inductionHypothesis,
        List.length_append, UInt64.ofNat_add]
      cases kind <;> rfl

end LineCounts

end LineTally
