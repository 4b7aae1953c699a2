import CallDepth.Proofs.Files.Matching

/-!
# Trees that differ at some files

Two trees that are equal but for some files, each of which may have other contents in the two trees
or be missing in one of them. A path that does not lead through such a file is followed alike in both
trees, and what is done at its end is done in both.
-/

namespace CallDepth

namespace FileTree

variable {spots : List Location} {t u v : FileTree} {path : String} {loc : Location}

/-! ### Trees -/

/-- Whether a location is neither one of some spots nor below one. -/
def Off (spots : List Location) (loc : Location) : Prop := ∀ spot ∈ spots, ¬ spot <+: loc

/-- Whether two trees are equal but for what lies at and below some spots, none of which is a
directory. -/
structure Alike (spots : List Location) (t u : FileTree) : Prop where
  workingDirectory_eq : t.workingDirectory = u.workingDirectory
  node?_eq : ∀ loc, Off spots loc → t.node? loc = u.node? loc
  left_spots : ∀ spot ∈ spots, t.node? spot ≠ some .directory
  right_spots : ∀ spot ∈ spots, u.node? spot ≠ some .directory

/-- Whether a path from a directory can be followed although trees differ at some spots: its way is
off them, and it ends at one of them only as the path of a file. -/
structure Clears (spots : List Location) (dir : Location) (path : String) : Prop where
  way : ∀ loc ∈ Path.way dir path, Off spots loc
  place : Off spots (Path.place dir path) ∨
    Path.place dir path ∈ spots ∧ Path.isClosed path = false

theorem off_of_bypasses {dir : Location} (h : ∀ spot ∈ spots, Path.Bypasses spot dir path) :
    Off spots (Path.place dir path) :=
  fun spot hspot => h spot hspot _ (List.mem_cons_self ..)

theorem clears_of_bypasses {dir : Location} (h : ∀ spot ∈ spots, Path.Bypasses spot dir path) :
    Clears spots dir path :=
  ⟨fun loc hloc spot hspot => h spot hspot loc (List.mem_cons_of_mem _ hloc),
    Or.inl (off_of_bypasses h)⟩

/-! ### The way to a file -/

/-- A way that can be taken goes neither through what is no directory nor below it, though it may end
there. -/
theorem not_isPrefix_of_walk {start last spot : Location} {steps : List Path.Step}
    (hspot : t.node? spot ≠ some .directory) (hstart : ¬ spot <+: start ∨ start = spot)
    (hwalk : t.walk start steps = .ok last) :
    (∀ loc ∈ Path.wayFrom start steps, ¬ spot <+: loc) ∧ (¬ spot <+: last ∨ last = spot) := by
  -- a way that has come to the spot cannot go on, so it has not come there before its end
  induction steps generalizing start with
  | nil =>
    cases hwalk
    exact ⟨nofun, hstart⟩
  | cons step rest ih =>
    unfold walk at hwalk
    split at hwalk
    · cases hwalk
    · cases hwalk
    · rename_i hnode
      have hoff : ¬ spot <+: start := by
        rcases hstart with hstart | rfl
        · exact hstart
        · exact absurd hnode hspot
      have hrest : (∀ loc ∈ Path.wayFrom (step.follow start) rest, ¬ spot <+: loc) ∧
          (¬ spot <+: last ∨ last = spot) := by
        cases step with
        | here => exact ih (Or.inl hoff) hwalk
        | up =>
          have hup : ¬ spot <+: start.dropLast := fun h => hoff (h.trans (List.dropLast_prefix start))
          exact ih (Or.inl hup) hwalk
        | down name =>
          refine ih ?_ hwalk
          by_cases hnext : spot <+: start ++ [name]
          · rcases List.prefix_concat_iff.mp hnext with heq | h
            · exact Or.inr heq.symm
            · exact absurd h hoff
          · exact Or.inl hnext
      exact ⟨List.forall_mem_cons.mpr ⟨hoff, hrest.1⟩, hrest.2⟩

theorem not_isPrefix_origin {spot : Location} (hspot : t.node? spot ≠ some .directory)
    (path : String) : ¬ spot <+: t.origin path := by
  intro h
  have haround : spot <+: t.workingDirectory := by
    unfold origin at h
    split at h
    · rw [List.prefix_nil.mp h]
      exact List.nil_prefix
    · exact h
  exact hspot (directory_of_isPrefixOf (List.isPrefixOf_iff_prefix.mpr haround))

theorem not_isPrefix_of_locate {spot : Location} (hspot : t.node? spot ≠ some .directory)
    (hlocate : t.locate path = .ok loc) :
    (∀ passed ∈ Path.wayFrom (t.origin path) (Path.fullSteps path), ¬ spot <+: passed) ∧
      (¬ spot <+: loc ∨ loc = spot) := by
  unfold locate at hlocate
  split at hlocate
  · cases hlocate
  · exact not_isPrefix_of_walk hspot (Or.inl (not_isPrefix_origin hspot path)) hlocate

theorem clears_of_locate {spot : Location} (hspot : t.node? spot ≠ some .directory)
    (hlocate : t.locate path = .ok loc) (hne : loc ≠ spot) :
    Clears [spot] t.workingDirectory path := by
  obtain ⟨hway, hlast⟩ := not_isPrefix_of_locate hspot hlocate
  rw [eq_place_of_locate hlocate] at hne hlast
  exact ⟨fun passed hpassed => List.forall_mem_singleton.mpr (hway _ (Path.way_subset _ _ hpassed)),
    Or.inl (List.forall_mem_singleton.mpr (hlast.resolve_right hne))⟩

/-- The path of a file does not lead through the file itself, and does not end in a slash. -/
theorem clears_place_of_isFile (h : t.isFile path = true) :
    Clears [Path.place t.workingDirectory path] t.workingDirectory path := by
  obtain ⟨bytes, hread⟩ := isFile_iff.mp h
  obtain ⟨hlocate, hcontents⟩ := read_eq_ok_iff.mp hread
  have hnode : t.node? (Path.place t.workingDirectory path) ≠ some .directory := by
    rw [file?_eq_some_iff.mp hcontents]
    exact nofun
  have hway := (not_isPrefix_of_locate hnode hlocate).1
  have hopen : Path.isClosed path = false := by
    cases hclosed : Path.isClosed path with
    | false => rfl
    | true =>
      -- a last step would be taken at the file
      rw [Path.fullSteps, if_pos hclosed, Path.wayFrom_append] at hway
      exact absurd List.prefix_rfl (hway _ (List.mem_append_right _ (List.mem_cons_self ..)))
  exact ⟨fun passed hpassed => List.forall_mem_singleton.mpr (hway _ (Path.way_subset _ _ hpassed)),
    Or.inr ⟨List.mem_singleton_self _, hopen⟩⟩

theorem node?_put_of_ne (t : FileTree) {other : Location} (node : Node) (hne : other ≠ loc) :
    (t.put loc node).node? other = t.node? other := by
  rw [node?_put, if_neg hne]
  split
  · rename_i haround
    rw [directory_of_isPrefixOf haround]
  · rfl

/-! ### Following paths -/

namespace Alike

theorem refl_nil (t : FileTree) : Alike [] t t := ⟨rfl, fun _ _ => rfl, nofun, nofun⟩

theorem symm (h : Alike spots t u) : Alike spots u t :=
  ⟨h.workingDirectory_eq.symm, fun loc hloc => (h.node?_eq loc hloc).symm, h.right_spots,
    h.left_spots⟩

theorem put (h : Alike spots t u) {node : Node} (hnode : node = .directory → Off spots loc) :
    Alike spots (t.put loc node) (u.put loc node) := by
  have hspots : ∀ {s : FileTree} {spot : Location}, spot ∈ spots →
      s.node? spot ≠ some .directory → (s.put loc node).node? spot ≠ some .directory := by
    intro s spot hspot hs
    rw [node?_put]
    split
    · rename_i haround
      exact absurd (directory_of_isPrefixOf haround) hs
    · split
      · rename_i heq
        intro hdirectory
        refine hnode (Option.some.inj hdirectory) spot hspot ?_
        exact heq ▸ List.prefix_rfl
      · exact hs
  refine ⟨h.workingDirectory_eq, fun other hother => ?_, fun spot hspot => ?_, fun spot hspot => ?_⟩
  · rw [node?_put, node?_put, h.workingDirectory_eq, h.node?_eq other hother]
  · exact hspots hspot (h.left_spots spot hspot)
  · exact hspots hspot (h.right_spots spot hspot)

/-- A tree and the same tree with a file put in it. -/
theorem put_right (hloc : t.node? loc ≠ some .directory) (bytes : Bytes) :
    Alike [loc] t (t.put loc (.file bytes)) := by
  have hput : (t.put loc (.file bytes)).node? loc ≠ some .directory := by
    rw [node?_put]
    split
    · rename_i haround
      exact absurd (directory_of_isPrefixOf haround) hloc
    · rw [if_pos rfl]
      exact nofun
  refine ⟨rfl, fun other hoff => (node?_put_of_ne t _ ?_).symm, List.forall_mem_singleton.mpr hloc,
    List.forall_mem_singleton.mpr hput⟩
  rintro rfl
  exact hoff other (List.mem_singleton_self _) List.prefix_rfl

end Alike

theorem matching_alike (spots : List Location) : Matching (Off spots) (Alike spots) where
  workingDirectory_eq h := h.workingDirectory_eq
  sameKind h hloc := h.node?_eq _ hloc ▸ .refl _
  put_directory h hloc _ := h.put fun _ => hloc

theorem Clears.admits {dir : Location} (hpath : Clears spots dir path) :
    Admits (Off spots) (Alike spots) dir path where
  way := hpath.way
  directory_iff := by
    intro t u h _
    rcases hpath.place with hplace | ⟨hplace, -⟩
    · rw [h.node?_eq _ hplace]
    · exact iff_of_false (h.left_spots _ hplace) (h.right_spots _ hplace)
  put_file bytes h _ := h.put nofun

/-! ### Reading -/

namespace Alike

theorem locate_eq (h : Alike spots t u) (hpath : Clears spots t.workingDirectory path) :
    t.locate path = u.locate path := by
  have hway : ∀ loc ∈ Path.wayFrom (t.origin path) (Path.fullSteps path), Off spots loc := by
    unfold Path.fullSteps
    split
    · rename_i hclosed
      have hplace : Off spots (Path.place t.workingDirectory path) := by
        rcases hpath.place with hplace | ⟨-, hopen⟩
        · exact hplace
        · rw [hclosed] at hopen
          cases hopen
      rw [Path.wayFrom_append]
      exact List.forall_mem_append.mpr ⟨hpath.way, List.forall_mem_singleton.mpr hplace⟩
    · exact hpath.way
  exact (matching_alike spots).locate_eq h hway

theorem contents?_eq (h : Alike spots t u) (hplace : Off spots (Path.place t.workingDirectory path)) :
    t.contents? path = u.contents? path := by
  rw [contents?, contents?, ← h.workingDirectory_eq, file?, file?, h.node?_eq _ hplace]

/-- What is no directory in either tree is the same node if it has the same contents. -/
theorem node?_eq_of_contents? (h : Alike spots t u)
    (hplace : Path.place t.workingDirectory path ∈ spots)
    (hcontents : t.contents? path = u.contents? path) :
    t.node? (Path.place t.workingDirectory path) = u.node? (Path.place t.workingDirectory path) := by
  rw [contents?, contents?, ← h.workingDirectory_eq, file?, file?] at hcontents
  have hleft := h.left_spots _ hplace
  have hright := h.right_spots _ hplace
  cases ht : t.node? (Path.place t.workingDirectory path) with
  | none =>
    cases hu : u.node? (Path.place t.workingDirectory path) with
    | none => rfl
    | some node => cases node <;> simp_all [Node.contents?]
  | some node =>
    cases hu : u.node? (Path.place t.workingDirectory path) with
    | none => cases node <;> simp_all [Node.contents?]
    | some node' => cases node <;> cases node' <;> simp_all [Node.contents?]

theorem read_eq (h : Alike spots t u) (hpath : Clears spots t.workingDirectory path)
    (hcontents : t.contents? path = u.contents? path) : t.read path = u.read path := by
  have hnode : t.node? (Path.place t.workingDirectory path) =
      u.node? (Path.place t.workingDirectory path) := by
    rcases hpath.place with hplace | ⟨hplace, -⟩
    · exact h.node?_eq _ hplace
    · exact h.node?_eq_of_contents? hplace hcontents
  simp only [read, find?, ← h.locate_eq hpath]
  cases hlocate : t.locate path with
  | error fault => rfl
  | ok loc =>
    obtain rfl := eq_place_of_locate hlocate
    simp only [hnode]

/-! ### Removing -/

theorem erase (h : Alike spots t u) (loc : Location) : Alike spots (t.erase loc) (u.erase loc) := by
  have hspots : ∀ {s : FileTree} {spot : Location}, s.node? spot ≠ some .directory →
      (s.erase loc).node? spot ≠ some .directory := by
    intro s spot hs
    rw [node?_erase]
    split
    · rename_i haround
      exact absurd (directory_of_isPrefixOf haround) hs
    · split
      · exact nofun
      · exact hs
  refine ⟨h.workingDirectory_eq, fun other hother => ?_, fun spot hspot => ?_, fun spot hspot => ?_⟩
  · rw [node?_erase, node?_erase, h.workingDirectory_eq, h.node?_eq other hother]
  · exact hspots (h.left_spots spot hspot)
  · exact hspots (h.right_spots spot hspot)

/-- What lies at a spot may be removed from one of the trees. -/
theorem erase_left (h : Alike spots t u) (hloc : loc ∈ spots) : Alike spots (t.erase loc) u := by
  have herase := h.erase loc
  refine ⟨h.workingDirectory_eq, fun other hother => ?_, herase.left_spots, h.right_spots⟩
  rw [node?_erase, if_neg (c := loc.isPrefixOf other = true) (by simpa using hother loc hloc),
    ← h.node?_eq other hother]
  split
  · rename_i haround
    rw [directory_of_isPrefixOf haround]
  · rfl

theorem erase_right (h : Alike spots t u) (hloc : loc ∈ spots) : Alike spots t (u.erase loc) :=
  (h.symm.erase_left hloc).symm

end Alike

theorem read_erase {bytes found : Bytes} (hfile : t.file? loc = some bytes)
    (hne : Path.place t.workingDirectory path ≠ loc) (hread : t.read path = .ok found) :
    (t.erase loc).read path = .ok found := by
  have hnode : t.node? loc ≠ some .directory := by
    rw [file?_eq_some_iff.mp hfile]
    exact nofun
  have hsame : Alike [loc] t t :=
    ⟨rfl, fun _ _ => rfl, List.forall_mem_singleton.mpr hnode, List.forall_mem_singleton.mpr hnode⟩
  have halike : Alike [loc] t (t.erase loc) := hsame.erase_right (List.mem_singleton_self loc)
  have hpath := clears_of_locate hnode (read_eq_ok_iff.mp hread).1 hne
  have hplace : Off [loc] (Path.place t.workingDirectory path) := by
    rcases hpath.place with hplace | ⟨hplace, -⟩
    · exact hplace
    · exact absurd (List.mem_singleton.mp hplace) hne
  rw [← halike.read_eq hpath (halike.contents?_eq hplace)]
  exact hread

end FileTree

end CallDepth
