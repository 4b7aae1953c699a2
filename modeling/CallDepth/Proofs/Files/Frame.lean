import CallDepth.Proofs.Files.Place

/-!
# What operations leave

What each operation of a file tree leaves of the files that it is not about. Making directories leaves
every file, writing a file leaves every other one, and removing a file leaves every other one that can
be read.
-/

namespace CallDepth

def Node.contents? : Node → Option Bytes
  | .directory => none
  | .file bytes => some bytes

namespace FileTree

variable {t u v : FileTree} {path : String} {bytes : Bytes} {loc : Location}

/-! ### Files and paths to them -/

/-- The contents of the file at a location, none if no file is there. -/
def file? (t : FileTree) (loc : Location) : Option Bytes := (t.node? loc).bind Node.contents?

/-- The contents of the file where a path leads, whether or not the path can be followed. -/
def contents? (t : FileTree) (path : String) : Option Bytes :=
  t.file? (Path.place t.workingDirectory path)

theorem file?_eq_some_iff : t.file? loc = some bytes ↔ t.node? loc = some (.file bytes) := by
  unfold file?
  cases t.node? loc with
  | none => simp
  | some node => cases node <;> simp [Node.contents?]

theorem file?_of_directory (h : t.node? loc = some .directory) : t.file? loc = none := by
  rw [file?, h]
  rfl

theorem directory_of_isPrefixOf (h : loc.isPrefixOf t.workingDirectory = true) :
    t.node? loc = some .directory := by
  rw [node?, if_pos h]

theorem read_eq_ok_iff :
    t.read path = .ok bytes ↔
      t.locate path = .ok (Path.place t.workingDirectory path) ∧ t.contents? path = some bytes := by
  rw [read, find?]
  cases hlocate : t.locate path with
  | error fault => simp
  | ok loc =>
    obtain rfl := eq_place_of_locate hlocate
    rw [contents?, file?]
    cases hnode : t.node? (Path.place t.workingDirectory path) with
    | none => simp [hnode]
    | some node => cases node <;> simp [hnode, Node.contents?]

theorem contents?_of_read (h : t.read path = .ok bytes) : t.contents? path = some bytes :=
  (read_eq_ok_iff.mp h).2

theorem isFile_iff : t.isFile path = true ↔ ∃ bytes, t.read path = .ok bytes := by
  unfold isFile read
  cases t.find? path with
  | error fault => simp
  | ok node => cases node <;> simp

theorem isFile_eq_false_of_contents? (h : t.contents? path = none) : t.isFile path = false := by
  rw [← Bool.not_eq_true, isFile_iff]
  rintro ⟨bytes, hread⟩
  rw [contents?_of_read hread] at h
  cases h

/-- What is made of the file that a path names, or `absent` if there is none. -/
def readOr {α : Type} (t : FileTree) (path : String) (absent : α) (held : Bytes → α) : α :=
  match t.read path with
  | .ok bytes => held bytes
  | .error _ => absent

theorem readOr_of_read {α : Type} {absent : α} {held : Bytes → α} (h : t.read path = .ok bytes) :
    t.readOr path absent held = held bytes := by
  rw [readOr, h]

theorem readOr_of_isFile {α : Type} {absent : α} {held : Bytes → α} (h : t.isFile path = false) :
    t.readOr path absent held = absent := by
  unfold readOr
  split
  · rename_i bytes hread
    rw [isFile_iff.mpr ⟨bytes, hread⟩] at h
    cases h
  · rfl

/-! ### Changes -/

/-- Whether the files at some locations are the same after a change. -/
structure Keeps (kept : Location → Prop) (t u : FileTree) : Prop where
  workingDirectory_eq : u.workingDirectory = t.workingDirectory
  file?_eq : ∀ loc, kept loc → u.file? loc = t.file? loc

namespace Keeps

variable {kept fewer : Location → Prop}

theorem refl (kept : Location → Prop) (t : FileTree) : Keeps kept t t := ⟨rfl, fun _ _ => rfl⟩

theorem trans (h : Keeps kept t u) (h' : Keeps kept u v) : Keeps kept t v where
  workingDirectory_eq := h'.workingDirectory_eq.trans h.workingDirectory_eq
  file?_eq loc hloc := (h'.file?_eq loc hloc).trans (h.file?_eq loc hloc)

theorem mono (h : Keeps kept t u) (hfewer : ∀ loc, fewer loc → kept loc) : Keeps fewer t u :=
  ⟨h.workingDirectory_eq, fun loc hloc => h.file?_eq loc (hfewer loc hloc)⟩

theorem contents?_eq (h : Keeps kept t u) (hkept : kept (Path.place t.workingDirectory path)) :
    u.contents? path = t.contents? path := by
  rw [contents?, contents?, h.workingDirectory_eq, h.file?_eq _ hkept]

end Keeps

/-- Whether all directories are still there after a change, so that paths can be followed as far. -/
structure Stays (t u : FileTree) : Prop where
  workingDirectory_eq : u.workingDirectory = t.workingDirectory
  directory_of_directory : ∀ loc, t.node? loc = some .directory → u.node? loc = some .directory

namespace Stays

theorem trans (h : Stays t u) (h' : Stays u v) : Stays t v where
  workingDirectory_eq := h'.workingDirectory_eq.trans h.workingDirectory_eq
  directory_of_directory loc hloc :=
    h'.directory_of_directory loc (h.directory_of_directory loc hloc)

theorem walk (h : Stays t u) {start : Location} {steps : List Path.Step}
    (hwalk : t.walk start steps = .ok loc) : u.walk start steps = .ok loc := by
  induction steps generalizing start with
  | nil => exact hwalk
  | cons step rest ih =>
    unfold FileTree.walk at hwalk ⊢
    split at hwalk
    · cases hwalk
    · cases hwalk
    · rename_i hnode
      rw [h.directory_of_directory start hnode]
      cases step with
      | here => exact ih hwalk
      | up => exact ih hwalk
      | down name => exact ih hwalk

theorem origin_eq (h : Stays t u) (path : String) : u.origin path = t.origin path := by
  rw [origin, origin, h.workingDirectory_eq]

theorem locate (h : Stays t u) (hlocate : t.locate path = .ok loc) : u.locate path = .ok loc := by
  unfold FileTree.locate at hlocate ⊢
  split at hlocate
  · cases hlocate
  · rename_i hne
    rw [if_neg hne, h.origin_eq]
    exact h.walk hlocate

/-- A file that can be read and is kept can still be read. -/
theorem read (h : Stays t u) {kept : Location → Prop} (hkeeps : Keeps kept t u)
    (hkept : kept (Path.place t.workingDirectory path)) (hread : t.read path = .ok bytes) :
    u.read path = .ok bytes := by
  rw [read_eq_ok_iff] at hread ⊢
  rw [hkeeps.contents?_eq hkept, h.workingDirectory_eq]
  exact ⟨h.locate hread.1, hread.2⟩

end Stays

/-- Whether some paths name the same files after a change, and can still be read where they could. -/
structure Leaves (paths : List String) (t u : FileTree) : Prop where
  workingDirectory_eq : u.workingDirectory = t.workingDirectory
  contents?_eq : ∀ path ∈ paths, u.contents? path = t.contents? path
  read : ∀ path ∈ paths, ∀ bytes, t.read path = .ok bytes → u.read path = .ok bytes

theorem Leaves.refl (paths : List String) (t : FileTree) : Leaves paths t t :=
  ⟨rfl, fun _ _ => rfl, fun _ _ _ h => h⟩

theorem Leaves.trans {paths : List String} (h : Leaves paths t u) (h' : Leaves paths u v) :
    Leaves paths t v where
  workingDirectory_eq := h'.workingDirectory_eq.trans h.workingDirectory_eq
  contents?_eq path hpath := (h'.contents?_eq path hpath).trans (h.contents?_eq path hpath)
  read path hpath bytes hread := h'.read path hpath bytes (h.read path hpath bytes hread)

theorem Stays.leaves {paths : List String} {kept : Location → Prop} (h : Stays t u)
    (hkeeps : Keeps kept t u) (hkept : ∀ path ∈ paths, kept (Path.place t.workingDirectory path)) :
    Leaves paths t u where
  workingDirectory_eq := h.workingDirectory_eq
  contents?_eq path hpath := hkeeps.contents?_eq (hkept path hpath)
  read path hpath _ hread := h.read hkeeps (hkept path hpath) hread

/-! ### Making directories -/

/-- Whether a change only made directories where nothing was. -/
structure Grows (t u : FileTree) : Prop where
  workingDirectory_eq : u.workingDirectory = t.workingDirectory
  node?_cases : ∀ loc, u.node? loc = t.node? loc ∨
    t.node? loc = none ∧ u.node? loc = some .directory

namespace Grows

theorem refl (t : FileTree) : Grows t t := ⟨rfl, fun _ => Or.inl rfl⟩

theorem trans (h : Grows t u) (h' : Grows u v) : Grows t v := by
  refine ⟨h'.workingDirectory_eq.trans h.workingDirectory_eq, fun loc => ?_⟩
  rcases h.node?_cases loc with hu | ⟨ht, hu⟩
  · rw [← hu]
    exact h'.node?_cases loc
  · rcases h'.node?_cases loc with hv | ⟨hnone, -⟩
    · exact Or.inr ⟨ht, hv.trans hu⟩
    · rw [hu] at hnone
      cases hnone

theorem keeps (h : Grows t u) (kept : Location → Prop) : Keeps kept t u := by
  refine ⟨h.workingDirectory_eq, fun loc _ => ?_⟩
  rcases h.node?_cases loc with hu | ⟨ht, hu⟩
  · rw [file?, file?, hu]
  · rw [file?, file?, hu, ht]
    rfl

theorem stays (h : Grows t u) : Stays t u := by
  refine ⟨h.workingDirectory_eq, fun loc hloc => ?_⟩
  rcases h.node?_cases loc with hu | ⟨ht, -⟩
  · rw [hu, hloc]
  · rw [hloc] at ht
    cases ht

theorem leaves (h : Grows t u) (paths : List String) : Leaves paths t u :=
  h.stays.leaves (h.keeps fun _ => True) fun _ _ => trivial

theorem put_directory (hloc : t.node? loc = none) : Grows t (t.put loc .directory) := by
  refine ⟨rfl, fun other => ?_⟩
  rw [node?_put]
  split
  · rename_i haround
    exact Or.inl (by rw [node?, if_pos haround])
  · split
    · rename_i hother
      subst hother
      exact Or.inr ⟨hloc, rfl⟩
    · exact Or.inl rfl

end Grows

theorem makeDirectory_grows (t : FileTree) (start : Location) (back : List Path.Step) :
    Grows t (t.makeDirectory start back).2 := by
  unfold makeDirectory
  split
  · exact .refl t
  · split
    · exact .refl t
    · exact .put_directory ‹_›

theorem ensureDirectory_grows (t : FileTree) (start : Location) (back : List Path.Step) :
    Grows t (t.ensureDirectory start back).2 := by
  have hmake := makeDirectory_grows t start back
  unfold ensureDirectory
  split
  · rename_i hmade
    rwa [hmade] at hmake
  · rename_i hrefused
    rw [hrefused] at hmake
    split <;> exact hmake

theorem ensureDirectories_grows (t : FileTree) (start : Location) (back : List Path.Step) :
    Grows t (t.ensureDirectories start back).2 := by
  induction back generalizing t with
  | nil => exact .refl t
  | cons step above ih =>
    have hfirst := ensureDirectory_grows t start (step :: above)
    unfold ensureDirectories
    split
    · rename_i t' hmissing
      rw [hmissing] at hfirst
      have habove := ih t'
      split
      · rename_i t'' hmade
        rw [hmade] at habove
        exact (hfirst.trans habove).trans (ensureDirectory_grows t'' start (step :: above))
      · exact hfirst.trans habove
    · exact hfirst

theorem makeParents_grows (t : FileTree) (path : String) : Grows t (t.makeParents path).2 :=
  ensureDirectories_grows t _ _

/-! ### Writing -/

theorem file?_put_file (t : FileTree) (loc other : Location) (bytes : Bytes)
    (hloc : t.node? loc ≠ some .directory) :
    (t.put loc (.file bytes)).file? other = if other = loc then some bytes else t.file? other := by
  rw [file?, node?_put]
  by_cases haround : other.isPrefixOf t.workingDirectory = true
  · have hdirectory := directory_of_isPrefixOf haround
    have hne : other ≠ loc := by
      rintro rfl
      exact hloc hdirectory
    rw [if_pos haround, if_neg hne, file?_of_directory hdirectory]
    rfl
  · rw [if_neg haround]
    split <;> rfl

theorem put_file_stays (bytes : Bytes) (hloc : t.node? loc ≠ some .directory) :
    Stays t (t.put loc (.file bytes)) := by
  refine ⟨rfl, fun other hother => ?_⟩
  have hne : other ≠ loc := by
    rintro rfl
    exact hloc hother
  rw [node?_put, if_neg hne, hother, ite_self]

theorem target_cases (h : t.target path = .ok loc) :
    path ≠ "" ∧ t.walk (t.origin path) (Path.steps path) = .ok loc ∧
      Path.isClosed path = false ∧ t.node? loc ≠ some .directory := by
  unfold target at h
  split at h
  · cases h
  · rename_i hne
    split at h
    · cases h
    · rename_i hwalk
      split at h
      · cases h
      · rename_i hopen
        split at h
        · cases h
        · rename_i hnode
          cases h
          exact ⟨hne, hwalk, by simpa using hopen, hnode⟩

/-- What is written can be read, and every other file is left. -/
structure Written (path : String) (bytes : Bytes) (t u : FileTree) : Prop where
  keeps : Keeps (· ≠ Path.place t.workingDirectory path) t u
  stays : Stays t u
  read : u.read path = .ok bytes

theorem written_of_target (bytes : Bytes) (h : t.target path = .ok loc) :
    Written path bytes t (t.put loc (.file bytes)) := by
  obtain ⟨hne, hwalk, hclosed, hnode⟩ := target_cases h
  have hstays := put_file_stays bytes hnode
  have hplace := eq_place_of_target h
  refine ⟨⟨rfl, fun other hother => ?_⟩, hstays, ?_⟩
  · rw [file?_put_file t loc other bytes hnode, if_neg (hplace ▸ hother)]
  · have hlocate : t.locate path = .ok loc := by
      rw [locate, if_neg hne, Path.fullSteps, hclosed]
      exact hwalk
    rw [read_eq_ok_iff, contents?, hstays.workingDirectory_eq, ← hplace]
    exact ⟨hstays.locate hlocate, by rw [file?_put_file t loc loc bytes hnode, if_pos rfl]⟩

theorem written_of_write (h : t.write path bytes = (.ok (), u)) : Written path bytes t u := by
  unfold write at h
  split at h
  · cases h
  · rename_i htarget
    cases h
    exact written_of_target bytes htarget

theorem Written.leaves {paths : List String} (h : Written path bytes t u)
    (hpaths : ∀ other ∈ paths,
      Path.place t.workingDirectory other ≠ Path.place t.workingDirectory path) :
    Leaves paths t u :=
  h.stays.leaves h.keeps hpaths

theorem Grows.written (h : Grows t u) (h' : Written path bytes u v) : Written path bytes t v where
  keeps := by
    have hkeeps := h'.keeps
    rw [h.workingDirectory_eq] at hkeeps
    exact (h.keeps _).trans hkeeps
  stays := h.stays.trans h'.stays
  read := h'.read

theorem eq_of_write_error {fault : Fault} (h : t.write path bytes = (.error fault, u)) : u = t := by
  unfold write at h
  split at h
  · cases h
    rfl
  · cases h

/-- A write that goes through within a limit is one that needs none. -/
theorem write_of_writeWithin {limit : Limit}
    (h : t.writeWithin limit path bytes = (.ok (), u)) : t.write path bytes = (.ok (), u) := by
  unfold writeWithin at h
  unfold write
  split at h
  · cases h
  · cases h
  · rename_i htarget _
    rw [htarget]
    split at h
    · exact h
    · cases h

/-- Where a write is refused, nothing is changed or a start of what should be written is there. -/
theorem eq_or_written_of_writeWithin {limit : Limit} {fault : Fault}
    (h : t.writeWithin limit path bytes = (.error fault, u)) :
    u = t ∨ ∃ cut, cut <+: bytes ∧ Written path cut t u := by
  unfold writeWithin at h
  split at h
  · cases h
    exact Or.inl rfl
  · cases h
    exact Or.inl rfl
  · rename_i htarget _
    split at h
    · cases h
    · cases h
      exact Or.inr ⟨_, List.take_prefix _ _, written_of_target _ htarget⟩

/-! ### Removing -/

theorem file?_erase (t : FileTree) (loc other : Location) :
    (t.erase loc).file? other = if loc.isPrefixOf other then none else t.file? other := by
  rw [file?, node?_erase]
  by_cases haround : other.isPrefixOf t.workingDirectory = true
  · rw [if_pos haround, file?_of_directory (directory_of_isPrefixOf haround), ite_self]
    rfl
  · rw [if_neg haround]
    split <;> rfl

theorem contents?_of_erase (h : (t.erase loc).contents? path = some bytes) :
    t.contents? path = some bytes := by
  rw [contents?, file?_erase] at h
  split at h
  · cases h
  · exact h

theorem contents?_erase_place (t : FileTree) (path : String) :
    (t.erase (Path.place t.workingDirectory path)).contents? path = none := by
  rw [contents?, file?_erase]
  exact if_pos (by simp [erase])

theorem remove_of_isFile (h : t.isFile path = true) :
    t.remove path = (.ok (), t.erase (Path.place t.workingDirectory path)) := by
  obtain ⟨bytes, hread⟩ := isFile_iff.mp h
  obtain ⟨hlocate, hcontents⟩ := read_eq_ok_iff.mp hread
  rw [contents?, file?_eq_some_iff] at hcontents
  simp only [remove, hlocate, hcontents]

end FileTree

end CallDepth
