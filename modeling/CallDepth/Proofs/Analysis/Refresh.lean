import CallDepth.Proofs.Analysis.History
import CallDepth.Proofs.Analysis.Twin

/-!
# Refreshing

A refresh removes the selection and the snapshot, and a run writes all that is kept anew. So what
these files and the report were before does not matter to a run after a refresh: on trees that differ
in them, it does the same and leaves the same.
-/

namespace CallDepth

open FileTree

/-! ### Files that may be missing -/

namespace FileTree

variable {spots : List Location} {dir : Location} {paths : List String} {t u : FileTree}
  {path other : String}

/-- Whether a path names a file, or nothing is there. -/
def FileOrNone (t : FileTree) (path : String) : Prop :=
  t.isFile path = true ∨ t.node? (Path.place t.workingDirectory path) = none

/-- Whether two trees are equal but for the files that some paths name, each of which may be missing
in either. -/
structure DiffersAt (paths : List String) (t u : FileTree) : Prop where
  workingDirectory_eq : t.workingDirectory = u.workingDirectory
  node?_eq : ∀ loc, (∀ path ∈ paths, loc ≠ Path.place t.workingDirectory path) →
    t.node? loc = u.node? loc
  left : ∀ path ∈ paths, t.FileOrNone path
  right : ∀ path ∈ paths, u.FileOrNone path

theorem FileOrNone.node?_ne (h : t.FileOrNone path) :
    t.node? (Path.place t.workingDirectory path) ≠ some .directory := by
  rcases h with hfile | hnone
  · obtain ⟨bytes, hread⟩ := isFile_iff.mp hfile
    rw [file?_eq_some_iff.mp (contents?_of_read hread)]
    exact nofun
  · rw [hnone]
    exact nofun

theorem FileOrNone.node?_eq_none (h : t.FileOrNone path) (hfile : t.isFile path = false) :
    t.node? (Path.place t.workingDirectory path) = none := by
  rcases h with hfile' | hnone
  · rw [hfile] at hfile'
    cases hfile'
  · exact hnone

/-- Those of some paths that name a file in one of two trees. -/
def heldPaths (paths : List String) (t u : FileTree) : List String :=
  paths.filter fun path => t.isFile path || u.isFile path

theorem mem_heldPaths_iff : path ∈ heldPaths paths t u ↔
    path ∈ paths ∧ (t.isFile path = true ∨ u.isFile path = true) := by
  rw [heldPaths, List.mem_filter, Bool.or_eq_true]

/-- Where a file is missing in both trees, they are equal. -/
theorem DiffersAt.alike (h : DiffersAt paths t u) :
    Alike ((heldPaths paths t u).map (Path.place t.workingDirectory)) t u := by
  have hspots : ∀ spot ∈ (heldPaths paths t u).map (Path.place t.workingDirectory),
      t.node? spot ≠ some .directory ∧ u.node? spot ≠ some .directory := by
    intro spot hspot
    obtain ⟨path, hpath, rfl⟩ := List.mem_map.mp hspot
    have hmem := (mem_heldPaths_iff.mp hpath).1
    refine ⟨(h.left path hmem).node?_ne, ?_⟩
    rw [h.workingDirectory_eq]
    exact (h.right path hmem).node?_ne
  refine ⟨h.workingDirectory_eq, fun loc hloc => ?_, fun spot hspot => (hspots spot hspot).1,
    fun spot hspot => (hspots spot hspot).2⟩
  by_cases hplace : ∃ path ∈ paths, loc = Path.place t.workingDirectory path
  · obtain ⟨path, hpath, rfl⟩ := hplace
    have hheld : ¬ (t.isFile path = true ∨ u.isFile path = true) := by
      intro hfile
      exact hloc _ (List.mem_map_of_mem (mem_heldPaths_iff.mpr ⟨hpath, hfile⟩)) List.prefix_rfl
    rw [not_or, Bool.not_eq_true, Bool.not_eq_true] at hheld
    rw [(h.left path hpath).node?_eq_none hheld.1, h.workingDirectory_eq,
      (h.right path hpath).node?_eq_none hheld.2]
  · refine h.node?_eq loc fun path hpath heq => hplace ⟨path, hpath, heq⟩

/-! ### Removing files -/

/-- The tree without the file that a path names, if it names one. -/
def drop (t : FileTree) (path : String) : FileTree :=
  if t.isFile path then t.erase (Path.place t.workingDirectory path) else t

theorem workingDirectory_drop (t : FileTree) (path : String) :
    (t.drop path).workingDirectory = t.workingDirectory := by
  unfold drop
  split <;> rfl

theorem contents?_drop (h : t.FileOrNone path) : (t.drop path).contents? path = none := by
  unfold drop
  split
  · exact contents?_erase_place t path
  · rename_i hfile
    rw [contents?, file?, h.node?_eq_none (Bool.not_eq_true _ ▸ hfile)]
    rfl

theorem contents?_drop_of_none (h : t.contents? other = none) :
    (t.drop path).contents? other = none := by
  unfold drop
  split
  · refine Option.eq_none_iff_forall_ne_some.mpr fun bytes hbytes => ?_
    rw [contents?_of_erase hbytes] at h
    cases h
  · exact h

theorem FileOrNone.drop (h : t.FileOrNone other)
    (hne : Path.place t.workingDirectory other ≠ Path.place t.workingDirectory path) :
    (t.drop path).FileOrNone other := by
  unfold FileTree.drop
  split
  · rename_i hfile
    obtain ⟨bytes, hread⟩ := isFile_iff.mp hfile
    rcases h with hother | hnone
    · obtain ⟨found, hfound⟩ := isFile_iff.mp hother
      exact Or.inl (isFile_iff.mpr ⟨found, read_erase (contents?_of_read hread) hne hfound⟩)
    · refine Or.inr ?_
      change (t.erase _).node? (Path.place t.workingDirectory other) = none
      rw [node?_erase, hnone, ite_self]
      split
      · rename_i haround
        rw [directory_of_isPrefixOf haround] at hnone
        cases hnone
      · rfl
  · exact h

theorem Alike.drop (h : Alike spots t u) (hpath : Clears spots t.workingDirectory path) :
    Alike spots (t.drop path) (u.drop path) := by
  unfold FileTree.drop
  rw [← h.workingDirectory_eq]
  rcases hpath.place with hplace | ⟨hplace, -⟩
  · -- off the spots the file is there in both trees or in neither
    have hread := h.read_eq hpath (h.contents?_eq hplace)
    have hfile : t.isFile path = u.isFile path := by
      rw [Bool.eq_iff_iff, isFile_iff, isFile_iff, hread]
    rw [hfile]
    split
    · exact h.erase _
    · exact h
  · split
    · split
      · exact h.erase _
      · exact h.erase_left hplace
    · split
      · exact h.erase_right hplace
      · exact h

end FileTree

/-! ### A refresh -/

theorem Artifact.triple_invalidate_drop {α : Type} {a : Artifact α} (t : FileTree) :
    Triple World (· = t) a.invalidate (fun _ u => u = t.drop a.path) (fun _ _ => False) := by
  refine Artifact.triple_invalidate ?_ ?_
  · rintro u rfl hfile
    rw [FileTree.drop, hfile]
    rfl
  · rintro u rfl hfile
    rw [FileTree.drop, hfile]
    rfl

namespace Analysis

variable {s : Settings} {exporter : Exporter (StateM World)} {t u : FileTree}

/-- What a refresh leaves. -/
def refreshed (s : Settings) (t : FileTree) : FileTree := (t.drop s.unitTestPath).drop s.snapshotPath

theorem triple_refresh_at (s : Settings) (t : FileTree) :
    Triple World (· = t) (refresh s) (fun _ u => u = refreshed s t) (fun _ _ => False) :=
  (Artifact.triple_invalidate_drop t).bind fun _ => Artifact.triple_invalidate_drop _

theorem run_refresh_bind {α : Type} (s : Settings) (w : World) (p : Task (StateM World) α) :
    ∃ w' : World, w'.files = refreshed s w.files ∧
      w.run (do refresh s; p) = w'.run p := by
  have hrefresh := triple_refresh_at s w.files
  obtain ⟨_, hok, hfiles⟩ := hrefresh.exists_ok rfl
  refine ⟨_, hfiles, ?_⟩
  rw [World.run_bind]
  cases hrun : w.run (refresh s) with
  | mk found w' =>
    rw [hrun] at hok
    cases hok
    rfl

/-! ### Two runs -/

/-- The paths that settings name can be followed although trees differ in the files that are kept. -/
theorem clears_heldPaths (hs : s.Separate t.workingDirectory)
    (h : DiffersAt s.artifactPaths t u) {path : String}
    (hpath : path ∈ s.artifactPaths ++ s.sourcePaths) :
    Clears ((heldPaths s.artifactPaths t u).map (Path.place t.workingDirectory))
      t.workingDirectory path := by
  have hspot : ∀ spot ∈ (heldPaths s.artifactPaths t u).map (Path.place t.workingDirectory),
      Path.Bypasses spot t.workingDirectory path ∨
        spot = Path.place t.workingDirectory path ∧ Clears [spot] t.workingDirectory path := by
    intro spot hspot
    obtain ⟨other, hother, rfl⟩ := List.mem_map.mp hspot
    obtain ⟨hartifact, hheld⟩ := mem_heldPaths_iff.mp hother
    by_cases heq : path = other
    · subst heq
      refine Or.inr ⟨rfl, ?_⟩
      rcases hheld with hfile | hfile
      · exact clears_place_of_isFile hfile
      · rw [h.workingDirectory_eq]
        exact clears_place_of_isFile hfile
    · exact Or.inl (hs.2 path hpath other (List.mem_append_left _ hartifact) heq)
  refine ⟨fun loc hloc spot hmem => ?_, ?_⟩
  · rcases hspot spot hmem with hbypasses | ⟨-, hclears⟩
    · exact hbypasses loc (List.mem_cons_of_mem _ hloc)
    · exact hclears.way loc hloc spot (List.mem_singleton_self _)
  · by_cases hmem : Path.place t.workingDirectory path ∈
        (heldPaths s.artifactPaths t u).map (Path.place t.workingDirectory)
    · refine Or.inr ⟨hmem, ?_⟩
      rcases hspot _ hmem with hbypasses | ⟨-, hclears⟩
      · exact absurd List.prefix_rfl (hbypasses _ (List.mem_cons_self ..))
      · rcases hclears.place with hoff | ⟨-, hopen⟩
        · exact absurd List.prefix_rfl (hoff _ (List.mem_singleton_self _))
        · exact hopen
    · refine Or.inl fun spot hspot' => ?_
      rcases hspot spot hspot' with hbypasses | ⟨rfl, -⟩
      · exact hbypasses _ (List.mem_cons_self ..)
      · exact absurd hspot' hmem

/-- After a refresh trees that differ in the files that are kept are alike, with neither a selection
nor a snapshot. -/
theorem settles_refreshed (hs : s.Separate t.workingDirectory) (h : DiffersAt s.artifactPaths t u) :
    let spots := (heldPaths s.artifactPaths t u).map (Path.place t.workingDirectory)
    Settles t.workingDirectory spots [s.unitTestPath, s.snapshotPath] (refreshed s t)
        (refreshed s u) ∧
      (refreshed s t).contents? s.snapshotPath = none := by
  intro spots
  have hclears : ∀ path ∈ s.artifactPaths, Clears spots t.workingDirectory path :=
    fun path hpath => clears_heldPaths hs h (List.mem_append_left _ hpath)
  have hne := hs.1.artifacts.1.symm
  have halike : Alike spots (t.drop s.unitTestPath) (u.drop s.unitTestPath) :=
    h.alike.drop (hclears _ s.unitTestPath_mem)
  have halike' : Alike spots (refreshed s t) (refreshed s u) := by
    refine halike.drop ?_
    rw [workingDirectory_drop]
    exact hclears _ s.snapshotPath_mem
  have hnone : ∀ {v : FileTree}, v.workingDirectory = t.workingDirectory →
      (∀ path ∈ s.artifactPaths, v.FileOrNone path) →
      (refreshed s v).contents? s.unitTestPath = none ∧
        (refreshed s v).contents? s.snapshotPath = none := by
    intro v hdir hv
    refine ⟨contents?_drop_of_none (contents?_drop (hv _ s.unitTestPath_mem)), contents?_drop ?_⟩
    exact (hv _ s.snapshotPath_mem).drop (hdir ▸ hne)
  obtain ⟨hunitTests, hsnapshot⟩ := hnone rfl h.left
  obtain ⟨hunitTests', hsnapshot'⟩ := hnone h.workingDirectory_eq.symm h.right
  have hdir : (refreshed s t).workingDirectory = t.workingDirectory := by
    rw [refreshed, workingDirectory_drop, workingDirectory_drop]
  refine ⟨⟨hdir, halike', fun path hpath => ?_⟩, hsnapshot⟩
  simp only [List.mem_cons, List.not_mem_nil, or_false] at hpath
  rcases hpath with rfl | rfl
  · rw [hunitTests, hunitTests']
  · rw [hsnapshot, hsnapshot']

theorem triple_run_computed (hnone : (snapshot s).kept t = .ok none) :
    Triple World (· = t) (run s exporter) (fun r _ => r.2.snapshot = .computed) (fun _ _ => True) := by
  let any (_ : CallIndex × Details) (_ : FileTree) : Prop := True
  have hany : ∀ {α : Type} {p : Task (StateM World) α}, Triple World (fun _ => True) p (fun _ _ => True)
      (fun _ _ => True) := .of_files fun _ _ => trivial
  refine triple_run_of_none any any hnone ?_ (fun _ => hany) fun r => ?_
  · exact hany.mono (fun _ _ => trivial) (fun _ _ h => h) fun _ _ h => h
  · exact Artifact.triple_store (fun _ _ _ _ => rfl) fun _ _ _ _ _ => trivial

/-- A refresh and a run come to the same on any two trees that are equal but for the files that are
kept, each of which may be missing: the runs fail in the same way, or compute the same index with the
same summary and leave the same files. -/
theorem refresh_erases_history (s : Settings) (w v : World)
    (hs : s.Separate w.files.workingDirectory)
    (h : DiffersAt s.artifactPaths w.files v.files) :
    let task : Task (StateM World) (CallIndex × Summary) := do
      refresh s
      run s Report.write
    let p := w.run task
    let q := v.run task
    (∃ failure, p.1 = .error failure ∧ q.1 = .error failure) ∨
      ∃ r, p.1 = .ok r ∧ q.1 = .ok r ∧ r.2.snapshot = .computed ∧
        ∀ path ∈ s.artifactPaths, p.2.files.read path = q.2.files.read path := by
  intro task p q
  obtain ⟨w', hw, hp⟩ := run_refresh_bind s w (run s Report.write)
  obtain ⟨v', hv, hq⟩ := run_refresh_bind s v (run s Report.write)
  obtain ⟨hsettles, habsent⟩ := settles_refreshed hs h
  rw [← hw, ← hv] at hsettles
  rw [← hw] at habsent
  have hnone : (snapshot s).kept w'.files = .ok none :=
    readOr_of_isFile (isFile_eq_false_of_contents? habsent)
  have hclears : ∀ path ∈ s.artifactPaths ++ s.sourcePaths,
      Clears ((heldPaths s.artifactPaths w.files v.files).map (Path.place w.files.workingDirectory))
        w.files.workingDirectory path :=
    fun _ hpath => clears_heldPaths hs h hpath
  have hunhindered : Unhindered s (Settles _ _ [s.unitTestPath, s.snapshotPath]) _ :=
    unhindered_settles (fun path hpath => hclears path (List.mem_append_left _ hpath)) (by simp)
      (by simp)
  -- no file that is only read lies where the trees differ
  have hsource : ∀ path ∈ s.sourcePaths, w'.files.read path = v'.files.read path := by
    intro path hpath
    refine hsettles.read_eq_of_off (hclears path (List.mem_append_right _ hpath)) ?_
    intro spot hspot
    obtain ⟨other, hother, rfl⟩ := List.mem_map.mp hspot
    have hartifact := (mem_heldPaths_iff.mp hother).1
    have hbypasses := hs.2 path (List.mem_append_right _ hpath) other
      (List.mem_append_left _ hartifact) fun heq => hs.1.sources hpath hartifact (congrArg _ heq)
    exact hbypasses _ (List.mem_cons_self ..)
  have htests : ∀ g, (unitTests s).kept w'.files = .ok none →
      testsAt s g w'.files = testsAt (s.selecting s.naming s.testList) g v'.files := by
    intro g _
    refine testsAt_congr fun path hpath bytes => ?_
    rw [hsource path (List.mem_cons_of_mem _ (Option.mem_toList.mpr hpath))]
  have hend : EndAlike _ _ (w'.run (run s Report.write)) (v'.run (run s Report.write)) :=
    endAlike_run hunhindered hsettles (fun index h => by cases hnone.symm.trans h)
      (graphAt_congr (hsource _ (List.mem_cons_self ..))) htests
  have hcomputed : ∀ r, p.1 = .ok r → r.2.snapshot = .computed := by
    intro r hr
    have hrun : (w'.run (run s Report.write)).1 = .ok r := hp ▸ hr
    exact (triple_run_computed hnone).of_ok rfl hrun
  have hp' : w'.run (run s Report.write) = p := hp.symm
  have hq' : v'.run (run s Report.write) = q := hq.symm
  rw [hp', hq'] at hend
  clear_value p q
  cases hend with
  | error failure => exact Or.inl ⟨failure, rfl, rfl⟩
  | @ok r _ _ _ hsame =>
    obtain ⟨rfl, hsettles'⟩ := hsame
    refine Or.inr ⟨r, rfl, rfl, hcomputed r rfl, fun path hpath => ?_⟩
    have hsettled : s.artifactPaths ⊆ s.reportPath :: [s.unitTestPath, s.snapshotPath] := by
      simp [Settings.artifactPaths]
    exact hsettles'.read_eq (hclears path (List.mem_append_left _ hpath)) (hsettled hpath)

/-- A log with files that say nothing in place of those that are kept. -/
def stale : FileTree :=
  (((withLog twoCalls).put ["work", "logs", "unit_tests.json"] (.file [])).put
    ["work", "logs", "call_entries.bin"] (.file [])).put ["work", "logs", "call_entries.json"]
      (.file [])

theorem differsAt_stale :
    DiffersAt Settings.standard.artifactPaths stale (withLog twoCalls) := by
  have hplaces : ∀ loc ∈ [["work", "logs", "unit_tests.json"], ["work", "logs", "call_entries.bin"],
      ["work", "logs", "call_entries.json"]],
      ∃ path ∈ Settings.standard.artifactPaths, loc = Path.place ["work"] path := by
    decide +kernel
  have hnone : ∀ path ∈ Settings.standard.artifactPaths,
      (withLog twoCalls).node? (Path.place ["work"] path) = none := by
    decide +kernel
  have hfile : ∀ path ∈ Settings.standard.artifactPaths, stale.isFile path = true := by
    decide +kernel
  refine ⟨rfl, fun loc hloc => ?_, fun path hpath => Or.inl (hfile path hpath),
    fun path hpath => Or.inr (hnone path hpath)⟩
  have hne : ∀ place ∈ [["work", "logs", "unit_tests.json"], ["work", "logs", "call_entries.bin"],
      ["work", "logs", "call_entries.json"]], loc ≠ place := by
    rintro place hplace rfl
    obtain ⟨path, hpath, heq⟩ := hplaces loc hplace
    exact hloc path hpath heq
  rw [stale, node?_put_of_ne _ _ (hne _ (by simp)), node?_put_of_ne _ _ (hne _ (by simp)),
    node?_put_of_ne _ _ (hne _ (by simp))]

theorem refresh_erases_stale :
    let s := Settings.standard
    let w := World.ofFiles stale
    let v := World.ofFiles (withLog twoCalls)
    let task : Task (StateM World) (CallIndex × Summary) := do
      refresh s
      run s Report.write
    s.Separate ["work"] ∧ DiffersAt s.artifactPaths w.files v.files ∧
    ∃ r, (w.run task).1 = .ok r ∧ (v.run task).1 = .ok r ∧ ∀ path ∈ s.artifactPaths,
      (w.run task).2.files.read path = (v.run task).2.files.read path := by
  intro s w v task
  have hs : s.Separate ["work"] := by decide +kernel
  have hok : (w.run task).1.isOk = true := by decide +kernel
  obtain ⟨found, hfound⟩ := isOk_iff.mp hok
  have herases := refresh_erases_history s w v hs differsAt_stale
  refine ⟨hs, differsAt_stale, ?_⟩
  rcases herases with ⟨failure, hfailure, -⟩ | ⟨r, hw, hv, -, h⟩
  · cases hfound.symm.trans hfailure
  · exact ⟨r, hw, hv, h⟩

end Analysis

end CallDepth
