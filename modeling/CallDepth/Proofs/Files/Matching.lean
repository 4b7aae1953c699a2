import CallDepth.Proofs.Files.Saving

/-!
# Operations on two trees

Relations of two trees that operations on both respect. What an operation gives depends on the nodes
that it passes, and of these only on their kinds; so where the kinds are the same in both trees, it
gives the same, and leaves the trees related if a relation is kept by putting the same node in both.
-/

namespace CallDepth

/-- Whether nothing is at a place in two trees, a directory in both, or a file in both. -/
inductive SameKind : Option Node → Option Node → Prop where
  | none : SameKind none none
  | directory : SameKind (some .directory) (some .directory)
  | file (left right : Bytes) : SameKind (some (.file left)) (some (.file right))

theorem SameKind.refl (node : Option Node) : SameKind node node := by
  cases node with
  | none => exact .none
  | some node =>
    cases node with
    | directory => exact .directory
    | file bytes => exact .file bytes bytes

namespace FileTree

/-- Whether an operation does the same in two trees and leaves them related. -/
structure Agrees (R : FileTree → FileTree → Prop) (p q : Except Fault Unit × FileTree) : Prop where
  result_eq : p.1 = q.1
  related : R p.2 q.2

theorem Agrees.exists_mk {R : FileTree → FileTree → Prop} {p q : Except Fault Unit × FileTree}
    (h : Agrees R p q) : ∃ result t u, p = (result, t) ∧ q = (result, u) ∧ R t u := by
  obtain ⟨result, t⟩ := p
  obtain ⟨result', u⟩ := q
  obtain ⟨rfl, hrelated⟩ := h
  exact ⟨result, t, u, rfl, rfl, hrelated⟩

/-- Whether related trees have nodes of the same kinds at clear locations, and stay related when a
directory is made in both. -/
structure Matching (clear : Location → Prop) (R : FileTree → FileTree → Prop) : Prop where
  workingDirectory_eq : ∀ {t u : FileTree}, R t u → t.workingDirectory = u.workingDirectory
  sameKind : ∀ {t u : FileTree} {loc : Location}, R t u → clear loc →
    SameKind (t.node? loc) (u.node? loc)
  put_directory : ∀ {t u : FileTree} {loc : Location}, R t u → clear loc → t.node? loc = none →
    R (t.put loc .directory) (u.put loc .directory)

/-- Whether the file that a path names from a directory can be written in related trees alike. -/
structure Admits (clear : Location → Prop) (R : FileTree → FileTree → Prop) (dir : Location)
    (path : String) : Prop where
  way : ∀ loc ∈ Path.way dir path, clear loc
  directory_iff : ∀ {t u : FileTree}, R t u → t.workingDirectory = dir →
    (t.node? (Path.place dir path) = some .directory ↔
      u.node? (Path.place dir path) = some .directory)
  put_file : ∀ {t u : FileTree} (bytes : Bytes), R t u → t.workingDirectory = dir →
    R (t.put (Path.place dir path) (.file bytes)) (u.put (Path.place dir path) (.file bytes))

namespace Matching

variable {clear : Location → Prop} {R : FileTree → FileTree → Prop} {t u : FileTree}
  {start dir : Location} {steps back : List Path.Step} {path : String}

/-! ### Following paths -/

theorem walk_eq (m : Matching clear R) (h : R t u)
    (hway : ∀ loc ∈ Path.wayFrom start steps, clear loc) :
    t.walk start steps = u.walk start steps := by
  induction steps generalizing start with
  | nil => rfl
  | cons step rest ih =>
    obtain ⟨hstart, hrest⟩ := List.forall_mem_cons.mp hway
    have hnext := ih hrest
    have hkind := m.sameKind h hstart
    unfold walk
    generalize t.node? start = left at hkind ⊢
    generalize u.node? start = right at hkind ⊢
    cases hkind with
    | none => rfl
    | file left right => rfl
    | directory =>
      cases step with
      | here => exact hnext
      | up => exact hnext
      | down name => exact hnext

theorem origin_eq (m : Matching clear R) (h : R t u) (path : String) :
    t.origin path = u.origin path := by
  rw [origin, origin, m.workingDirectory_eq h]

theorem locate_eq (m : Matching clear R) (h : R t u)
    (hway : ∀ loc ∈ Path.wayFrom (t.origin path) (Path.fullSteps path), clear loc) :
    t.locate path = u.locate path := by
  rw [locate, locate, ← m.origin_eq h, m.walk_eq h hway]

/-! ### Making directories -/

theorem makeDirectory (m : Matching clear R) (h : R t u)
    (hway : ∀ loc ∈ Path.wayFrom start (back.reverse ++ [.here]), clear loc) :
    Agrees R (t.makeDirectory start back) (u.makeDirectory start back) := by
  rw [Path.wayFrom_append] at hway
  obtain ⟨hway, hlast⟩ := List.forall_mem_append.mp hway
  have hlast := hlast _ (List.mem_cons_self ..)
  rw [FileTree.makeDirectory, FileTree.makeDirectory, ← m.walk_eq h hway]
  cases hwalk : t.walk start back.reverse with
  | error fault => exact ⟨rfl, h⟩
  | ok loc =>
    obtain rfl := eq_of_walk hwalk
    have hput := m.put_directory h hlast
    have hkind := m.sameKind h hlast
    dsimp only
    generalize t.node? _ = left at hkind hput ⊢
    generalize u.node? _ = right at hkind ⊢
    cases hkind with
    | none => exact ⟨rfl, hput rfl⟩
    | directory => exact ⟨rfl, h⟩
    | file left right => exact ⟨rfl, h⟩

theorem isDirectoryAt_eq (m : Matching clear R) (h : R t u)
    (hway : ∀ loc ∈ Path.wayFrom start (back.reverse ++ [.here]), clear loc) :
    t.isDirectoryAt start back = u.isDirectoryAt start back := by
  rw [Path.wayFrom_append] at hway
  obtain ⟨hway, hlast⟩ := List.forall_mem_append.mp hway
  have hlast := hlast _ (List.mem_cons_self ..)
  rw [isDirectoryAt, isDirectoryAt, ← m.walk_eq h hway]
  cases hwalk : t.walk start back.reverse with
  | error fault => rfl
  | ok loc =>
    obtain rfl := eq_of_walk hwalk
    have hkind := m.sameKind h hlast
    dsimp only
    generalize t.node? _ = left at hkind ⊢
    generalize u.node? _ = right at hkind ⊢
    cases hkind with
    | none => rfl
    | directory => rfl
    | file left right => simp

theorem ensureDirectory (m : Matching clear R) (h : R t u)
    (hway : ∀ loc ∈ Path.wayFrom start (back.reverse ++ [.here]), clear loc) :
    Agrees R (t.ensureDirectory start back) (u.ensureDirectory start back) := by
  obtain ⟨result, t', u', ht, hu, h'⟩ := (m.makeDirectory h hway).exists_mk
  rw [FileTree.ensureDirectory, FileTree.ensureDirectory, ht, hu]
  cases result with
  | ok => exact ⟨rfl, h'⟩
  | error fault =>
    simp only [m.isDirectoryAt_eq h' hway]
    split <;> exact ⟨rfl, h'⟩

theorem ensureDirectories (m : Matching clear R) (h : R t u)
    (hway : ∀ loc ∈ Path.wayFrom start (back.reverse ++ [.here]), clear loc) :
    Agrees R (t.ensureDirectories start back) (u.ensureDirectories start back) := by
  induction back generalizing t u with
  | nil => exact ⟨rfl, h⟩
  | cons step above ih =>
    have habove : ∀ loc ∈ Path.wayFrom start (above.reverse ++ [.here]), clear loc := by
      intro loc hloc
      refine hway loc ?_
      rw [List.reverse_cons, Path.wayFrom_append, Path.wayFrom_append]
      rw [Path.wayFrom_append] at hloc
      exact List.mem_append_left _ hloc
    obtain ⟨result, t', u', ht, hu, h'⟩ := (m.ensureDirectory h hway).exists_mk
    rw [FileTree.ensureDirectories, FileTree.ensureDirectories, ht, hu]
    cases result with
    | ok => exact ⟨rfl, h'⟩
    | error fault =>
      cases fault with
      | notFound =>
        obtain ⟨result, t'', u'', ht', hu', h''⟩ := (ih h' habove).exists_mk
        simp only [ht', hu']
        cases result with
        | ok => exact m.ensureDirectory h'' hway
        | error fault => exact ⟨rfl, h''⟩
      | _ => exact ⟨rfl, h'⟩

theorem makeParents (m : Matching clear R) (h : R t u)
    (hway : ∀ loc ∈ Path.way t.workingDirectory path, clear loc) :
    Agrees R (t.makeParents path) (u.makeParents path) := by
  rw [FileTree.makeParents, FileTree.makeParents, ← m.origin_eq h]
  have hmoves : ∀ loc ∈ Path.wayFrom (t.origin path) (Path.moves path), clear loc :=
    fun loc hloc => hway loc (Path.wayFrom_moves_subset _ _ hloc)
  cases hback : (Path.moves path).reverse with
  | nil => exact ⟨rfl, h⟩
  | cons step above =>
    refine m.ensureDirectories h fun loc hloc => hmoves loc ?_
    rw [List.reverse_eq_cons_iff.mp hback]
    rw [Path.wayFrom_append] at hloc ⊢
    exact hloc

/-! ### Saving files -/

theorem target_eq (m : Matching clear R) (h : R t u) (hdir : t.workingDirectory = dir)
    (hpath : Admits clear R dir path) : t.target path = u.target path := by
  subst hdir
  have hwalk : t.walk (t.origin path) (Path.steps path) = u.walk (t.origin path) (Path.steps path) :=
    m.walk_eq h hpath.way
  rw [target, target, ← m.origin_eq h, ← hwalk]
  cases hloc : t.walk (t.origin path) (Path.steps path) with
  | error fault => rfl
  | ok loc =>
    obtain rfl : loc = Path.place t.workingDirectory path := eq_of_walk hloc
    have hiff := hpath.directory_iff h rfl
    by_cases hleft : t.node? (Path.place t.workingDirectory path) = some .directory
    · simp only [hleft, hiff.mp hleft]
    · have hright := mt hiff.mpr hleft
      dsimp only
      split
      · rfl
      · split
        · rfl
        · split
          · contradiction
          · rfl

theorem write (m : Matching clear R) (h : R t u) (hdir : t.workingDirectory = dir)
    (hpath : Admits clear R dir path) (bytes : Bytes) :
    Agrees R (t.write path bytes) (u.write path bytes) := by
  rw [FileTree.write, FileTree.write, ← m.target_eq h hdir hpath]
  cases htarget : t.target path with
  | error fault => exact ⟨rfl, h⟩
  | ok loc =>
    obtain rfl := eq_place_of_target htarget
    exact ⟨rfl, hdir ▸ hpath.put_file bytes h hdir⟩

theorem save (m : Matching clear R) (h : R t u) (hdir : t.workingDirectory = dir)
    (hpath : Admits clear R dir path) (bytes : Bytes) :
    Agrees R (t.save path bytes) (u.save path bytes) := by
  have hgrows := (makeParents_grows t path).workingDirectory_eq
  have hway : ∀ loc ∈ Path.way t.workingDirectory path, clear loc := hdir ▸ hpath.way
  obtain ⟨result, t', u', ht, hu, h'⟩ := (m.makeParents h hway).exists_mk
  rw [ht] at hgrows
  rw [FileTree.save, FileTree.save, ht, hu]
  cases result with
  | ok => exact m.write h' (hgrows.trans hdir) hpath bytes
  | error fault => exact ⟨rfl, h'⟩

end Matching

end FileTree

end CallDepth
