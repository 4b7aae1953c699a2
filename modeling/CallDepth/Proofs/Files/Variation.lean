import CallDepth.Proofs.Files.Matching

/-!
# One file with different contents

Two trees that are equal but for the contents of one file. Where a path leads is the same in both, as
the file is no directory in either; so an operation does the same in both and leaves them so, if it
neither reads nor writes that file.
-/

namespace CallDepth

/-- A file of which two trees have different contents: where it lies, and what each has there. -/
structure Variation where
  workingDirectory : Location
  location : Location
  left : Bytes
  right : Bytes

namespace Variation

/-- Whether two trees are equal but for the contents of the file. -/
structure Relates (x : Variation) (t u : FileTree) : Prop where
  left_workingDirectory : t.workingDirectory = x.workingDirectory
  right_workingDirectory : u.workingDirectory = x.workingDirectory
  left_file : t.node? x.location = some (.file x.left)
  right_file : u.node? x.location = some (.file x.right)
  elsewhere : ∀ loc, loc ≠ x.location → t.node? loc = u.node? loc

theorem relates_put (t : FileTree) {loc : Location}
    (hloc : loc.isPrefixOf t.workingDirectory = false) (left right : Bytes) :
    Relates ⟨t.workingDirectory, loc, left, right⟩ (t.put loc (.file left))
      (t.put loc (.file right)) := by
  refine ⟨rfl, rfl, ?_, ?_, ?_⟩
  · simp [FileTree.node?_put, hloc]
  · simp [FileTree.node?_put, hloc]
  · intro other hother
    simp [FileTree.node?_put, hother]

def Avoids (x : Variation) (path : String) : Prop :=
  Path.place x.workingDirectory path ≠ x.location

instance (x : Variation) (path : String) : Decidable (x.Avoids path) :=
  inferInstanceAs (Decidable (Path.place x.workingDirectory path ≠ x.location))

namespace Relates

variable {x : Variation} {t u : FileTree}

theorem cases_node? (h : x.Relates t u) (loc : Location) :
    t.node? loc = u.node? loc ∨
      t.node? loc = some (.file x.left) ∧ u.node? loc = some (.file x.right) := by
  by_cases hloc : loc = x.location
  · subst hloc
    exact Or.inr ⟨h.left_file, h.right_file⟩
  · exact Or.inl (h.elsewhere loc hloc)

theorem put (h : x.Relates t u) {loc : Location} (hloc : loc ≠ x.location) (node : Node) :
    x.Relates (t.put loc node) (u.put loc node) := by
  have hdir : t.workingDirectory = u.workingDirectory :=
    h.left_workingDirectory.trans h.right_workingDirectory.symm
  have hput : ∀ {s : FileTree} {bytes : Bytes}, s.node? x.location = some (.file bytes) →
      (s.put loc node).node? x.location = some (.file bytes) := by
    intro s bytes hs
    rw [FileTree.node?_put, if_neg (Ne.symm hloc), hs]
    split
    · -- around the working directory there are only directories
      rename_i haround
      rw [FileTree.node?, if_pos haround] at hs
      cases hs
    · rfl
  refine ⟨h.left_workingDirectory, h.right_workingDirectory, hput h.left_file,
    hput h.right_file, ?_⟩
  intro other hother
  rw [FileTree.node?_put, FileTree.node?_put, hdir, h.elsewhere other hother]

end Relates

theorem matching (x : Variation) : FileTree.Matching (fun _ => True) x.Relates where
  workingDirectory_eq h := h.left_workingDirectory.trans h.right_workingDirectory.symm
  sameKind := by
    intro t u loc h _
    rcases h.cases_node? loc with hnode | ⟨hleft, hright⟩
    · exact hnode ▸ .refl _
    · rw [hleft, hright]
      exact .file x.left x.right
  put_directory := by
    intro t u loc h _ hnone
    refine h.put ?_ _
    rintro rfl
    rw [h.left_file] at hnone
    cases hnone

theorem Avoids.admits {x : Variation} {path : String} (hpath : x.Avoids path) :
    FileTree.Admits (fun _ => True) x.Relates x.workingDirectory path where
  way _ _ := trivial
  directory_iff h _ := by rw [h.elsewhere _ hpath]
  put_file _ h _ := h.put hpath _

namespace Relates

variable {x : Variation} {t u : FileTree}

theorem locate_eq (h : x.Relates t u) (path : String) : t.locate path = u.locate path :=
  x.matching.locate_eq h fun _ _ => trivial

/-! ### Reading -/

theorem read_eq (h : x.Relates t u) {path : String} (hpath : x.Avoids path) :
    t.read path = u.read path := by
  simp only [FileTree.read, FileTree.find?, h.locate_eq]
  cases hlocate : u.locate path with
  | error fault => rfl
  | ok loc =>
    have hne : loc ≠ x.location := by
      rw [FileTree.eq_place_of_locate hlocate, h.right_workingDirectory]
      exact hpath
    simp only [h.elsewhere loc hne]

/-- Reading the file fails alike in both trees, or gives what each has. -/
theorem read_file (h : x.Relates t u) {path : String}
    (hpath : Path.place x.workingDirectory path = x.location) :
    (∃ fault, t.read path = .error fault ∧ u.read path = .error fault) ∨
      t.read path = .ok x.left ∧ u.read path = .ok x.right := by
  simp only [FileTree.read, FileTree.find?, h.locate_eq]
  cases hlocate : u.locate path with
  | error fault => exact Or.inl ⟨fault, rfl, rfl⟩
  | ok loc =>
    have hloc : loc = x.location := by
      rw [FileTree.eq_place_of_locate hlocate, h.right_workingDirectory]
      exact hpath
    subst hloc
    refine Or.inr ?_
    simp [h.left_file, h.right_file]

end Relates

end Variation

end CallDepth
