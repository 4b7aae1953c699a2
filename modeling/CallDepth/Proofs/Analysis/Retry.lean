import CallDepth.Proofs.Analysis.History

/-!
# Retrying a run

A run that fails after it has computed the index may have stored the selection of the tests, and
nothing else that a later run uses, unless a write of the snapshot has stopped half-way. The tests that
a retry then reads are those that were selected, so it comes to the same index.
-/

namespace CallDepth

open FileTree

/-- Whether an exporter changes no file but the one at the path that it is given, and removes no
directory. -/
structure Exporter.Confined (exporter : Exporter (StateM LimitedWorld)) (path : String) : Prop where
  keeps : ∀ (index : CallIndex) (x : LimitedWorld),
    Keeps (· ≠ Path.place x.files.workingDirectory path) x.files
      (x.run (exporter index path)).2.files
  stays : ∀ (index : CallIndex) (x : LimitedWorld),
    Stays x.files (x.run (exporter index path)).2.files

theorem Report.confined_write (path : String) : Exporter.Confined Report.write path := by
  have hwrite : ∀ (index : CallIndex) (t : FileTree),
      Triple LimitedWorld (· = t) (Report.write index path)
        (fun _ u => Keeps (· ≠ Path.place t.workingDirectory path) t u ∧ Stays t u)
        (fun _ u => Keeps (· ≠ Path.place t.workingDirectory path) t u ∧ Stays t u) := by
    intro index t
    refine Report.triple_write ?_ ?_
    · rintro _ u rfl hwritten
      exact ⟨hwritten.keeps, hwritten.stays⟩
    · rintro fault _ u rfl hrefused
      exact ⟨hrefused.keeps, hrefused.stays⟩
  exact ⟨fun index x => ((hwrite index x.files).files rfl).1,
    fun index x => ((hwrite index x.files).files rfl).2⟩

namespace Analysis

variable {s : Settings} {exporter : Exporter (StateM LimitedWorld)} {t u v : FileTree}
  {g : CallGraph} {selection : List Method × Option Nat} {r : CallIndex × Details}

/-! ### What a failed run leaves -/

/-- What remains of what a run has found and selected, wherever it fails after that. -/
structure Remains (s : Settings) (t : FileTree) (selection : List Method × Option Nat)
    (u : FileTree) : Prop where
  sources : Leaves s.sourcePaths t u
  tests : (unitTests s).kept u = .ok (some selection.1) ∨
    selection.1 = [] ∧ u.contents? s.unitTestPath = none

theorem conforms_of_testsAt {tests : List Method} {unmatched : Nat}
    (hgraph : graphAt s.callLog t = .ok g) (h : testsAt s g t = .ok (tests, unmatched)) :
    ∀ m ∈ tests, m.Conforms := by
  intro m hm
  have hcaller := (sublist_callers_of_testsAt h).subset hm
  cases hread : t.read s.callLog with
  | error fault =>
    rw [graphAt, hread] at hgraph
    cases fault <;> cases hgraph
  | ok log =>
    rw [graphAt_of_read hread] at hgraph
    exact CallLog.conforms_of_mem_callers hgraph hcaller

/-- A selection file that is there is found by its path. -/
def FindsTests (s : Settings) (t : FileTree) : Prop :=
  t.contents? s.unitTestPath = none ∨ t.isFile s.unitTestPath = true

theorem contents?_of_kept_none (hfinds : FindsTests s t) (h : (unitTests s).kept t = .ok none) :
    t.contents? s.unitTestPath = none := by
  rcases hfinds with hnone | hfile
  · exact hnone
  · obtain ⟨bytes, hread⟩ := isFile_iff.mp hfile
    have hkept : (unitTests s).kept t = (unitTests s).held bytes := readOr_of_read hread
    rw [h, Artifact.held] at hkept
    split at hkept <;> cases hkept

theorem Stored.remains (hs : s.NamesApart t.workingDirectory) (hfinds : FindsTests s t)
    (hgraph : graphAt s.callLog t = .ok g) (hselection : selectionAt s g t = .ok selection)
    (h : Stored s t selection u) : Remains s t selection u := by
  have hcases := selectionAt_cases hselection
  cases h with
  | kept tests =>
    rcases hcases with ⟨hkept, -⟩ | ⟨_, -, -, hselected⟩
    · exact ⟨.refl _ _, Or.inl hkept⟩
    · cases hselected
  | none unmatched =>
    rcases hcases with ⟨-, hkept⟩ | ⟨_, hnone, -, -⟩
    · cases hkept
    · exact ⟨.refl _ _, Or.inr ⟨rfl, contents?_of_kept_none hfinds hnone⟩⟩
  | written hne hwritten =>
    rcases hcases with ⟨-, hkept⟩ | ⟨_, -, htests, -⟩
    · cases hkept
    · refine ⟨hwritten.leaves fun path hpath => hs.sources hpath s.unitTestPath_mem, Or.inl ?_⟩
      have hdecode := MethodList.decode_encode hne (conforms_of_testsAt hgraph htests)
      exact kept_unitTests_iff.mpr ⟨_, hwritten.read, hdecode⟩

/-- What remains is not affected by a change of the report or of the snapshot. -/
theorem Remains.change {path : String} (h : Remains s t selection u)
    (hs : s.NamesApart t.workingDirectory) (hpath : path ∈ [s.reportPath, s.snapshotPath])
    (hkeeps : Keeps (· ≠ Path.place t.workingDirectory path) u v) (hstays : Stays u v) :
    Remains s t selection v := by
  have hdir := h.sources.workingDirectory_eq
  obtain ⟨hunitSnapshot, hunitReport, -⟩ := hs.artifacts
  have hartifact : path ∈ s.artifactPaths ∧
      Path.place t.workingDirectory s.unitTestPath ≠ Path.place t.workingDirectory path := by
    simp only [List.mem_cons, List.not_mem_nil, or_false] at hpath
    rcases hpath with rfl | rfl
    · exact ⟨s.reportPath_mem, hunitReport⟩
    · exact ⟨s.snapshotPath_mem, hunitSnapshot⟩
  refine ⟨h.sources.trans (hstays.leaves hkeeps fun source hsource => ?_), ?_⟩
  · rw [hdir]
    exact hs.sources hsource hartifact.1
  · rcases h.tests with hkept | ⟨hnil, hnone⟩
    · obtain ⟨bytes, hread, hdecode⟩ := kept_unitTests_iff.mp hkept
      have hread' := hstays.read hkeeps (hdir.symm ▸ hartifact.2) hread
      exact Or.inl (kept_unitTests_iff.mpr ⟨bytes, hread', hdecode⟩)
    · exact Or.inr ⟨hnil, (hkeeps.contents?_eq (hdir.symm ▸ hartifact.2)).trans hnone⟩

/-- What a run that has no snapshot does before it exports. -/
def beforeExport {m : Type → Type} [Monad m] [Disk m] (s : Settings) :
    Task m (CallIndex × Details) := do
  let _ ← (snapshot s).load
  compute s

/-- What a run does once it has computed an index. -/
def finish {m : Type → Type} [Monad m] [Disk m] (s : Settings) (exporter : Exporter m)
    (r : CallIndex × Details) : Task m (CallIndex × Summary) := do
  exporter r.1 s.reportPath
  (snapshot s).store r.1
  return (r.1, .ofIndex r.1 (some r.2))

theorem run_eq_finish {m : Type → Type} [Monad m] [LawfulMonad m] [Disk m] (s : Settings)
    (exporter : Exporter m) :
    run s exporter = (snapshot s).load >>= fun found =>
      match found with
      | some index => pure (index, .ofIndex index none)
      | none => compute s >>= finish s exporter := by
  unfold run Artifact.loadOrComputeWith
  rw [bind_assoc]
  refine bind_congr fun found => ?_
  cases found with
  | some index => simp only [pure_bind]
  | none =>
    simp only [bind_assoc, pure_bind]
    refine bind_congr fun r => ?_
    -- every index is stored
    have hstorable : (snapshot s).codec.isStorable r.1 = true := rfl
    unfold finish
    simp only [hstorable, if_true, bind_assoc, pure_bind]

theorem triple_finish_remains (hs : s.NamesApart t.workingDirectory)
    (hexporter : exporter.Confined s.reportPath) :
    Triple LimitedWorld (Remains s t selection) (finish s exporter r) (fun _ _ => True)
      (fun _ => Remains s t selection) := by
  have hexport : Triple LimitedWorld (Remains s t selection) (exporter r.1 s.reportPath)
      (fun _ => Remains s t selection) (fun _ => Remains s t selection) := by
    refine Triple.of_files fun x hx => ?_
    have hkeeps := hexporter.keeps r.1 x
    have hdir : x.files.workingDirectory = t.workingDirectory := hx.sources.workingDirectory_eq
    rw [hdir] at hkeeps
    exact hx.change hs (by simp) hkeeps (hexporter.stays r.1 x)
  have hstore : Triple LimitedWorld (Remains s t selection) ((snapshot s).store r.1)
      (fun _ _ => True) (fun _ => Remains s t selection) := by
    refine Artifact.triple_store (fun _ _ _ _ => trivial) fun fault u v hu hrefused => ?_
    have hdir : u.workingDirectory = t.workingDirectory := hu.sources.workingDirectory_eq
    have hkeeps : Keeps (· ≠ Path.place u.workingDirectory s.snapshotPath) u v := hrefused.keeps
    rw [hdir] at hkeeps
    exact hu.change hs (by simp) hkeeps hrefused.stays
  exact hexport.bind fun _ => hstore.bind fun _ => .pure fun _ _ => trivial

/-- A run without a snapshot that computes an index, and then fails to export it or to store the
snapshot. -/
structure FailsLate (s : Settings) (exporter : Exporter (StateM LimitedWorld)) (x : LimitedWorld)
    (r : CallIndex × Details) : Prop where
  absent : x.files.isFile s.snapshotPath = false
  computes : (x.run (beforeExport s)).1 = .ok r
  fails : ∃ failure, (x.run (run s exporter)).1 = .error failure

/-- The run has computed its index from the files that it was started on. -/
theorem FailsLate.exists_selection {x : LimitedWorld} (h : FailsLate s exporter x r) :
    ∃ g selection, graphAt s.callLog x.files = .ok g ∧ selectionAt s g x.files = .ok selection ∧
      result s g selection = r ∧
      ∃ z : LimitedWorld, Stored s x.files selection z.files ∧
        x.run (run s exporter) = z.run (finish s exporter r) := by
  have hcomputes := h.computes
  obtain ⟨hload, hfiles⟩ := (snapshot s).reads_load x
  have hkept : (snapshot s).kept (Medium.tree x) = .ok none := readOr_of_isFile h.absent
  unfold LimitedWorld.run at hcomputes ⊢
  rw [hkept] at hload
  rw [beforeExport, Task.run_bind] at hcomputes
  rw [run_eq_finish, Task.run_bind]
  cases hloaded : ((snapshot s).load : Task (StateM LimitedWorld) _).run.run x with
  | mk found y =>
    rw [hloaded] at hload hfiles hcomputes
    cases hload
    dsimp only at hcomputes hfiles ⊢
    have hcompute := (triple_compute_at s x.files).run y hfiles
    rw [Task.run_bind]
    cases hcomputed : (compute s : Task (StateM LimitedWorld) _).run.run y with
    | mk computed z =>
      rw [hcomputed] at hcomputes hcompute
      cases hcomputes
      obtain ⟨g, selection, hgraph, hselection, hr, hstored⟩ := hcompute
      exact ⟨g, selection, hgraph, hselection, hr, z, hstored, rfl⟩

/-! ### The retry -/

/-- The retry finds the same calls and the same tests, which it need not store. -/
theorem Remains.selectionAt_retry (h : Remains s t selection u)
    (huntouched : Untouched (s.unitTestPath :: s.sourcePaths) u v)
    (hgraph : graphAt s.callLog t = .ok g) (hselection : selectionAt s g t = .ok selection) :
    graphAt s.callLog v = .ok g ∧
      ∃ unmatched, selectionAt s g v = .ok (selection.1, unmatched) ∧
        (selection.1 = [] ∨ unmatched = none) := by
  have hsource : ∀ path ∈ s.sourcePaths, ∀ bytes, t.read path = .ok bytes →
      v.read path = .ok bytes := by
    intro path hpath bytes hread
    have hread' := h.sources.read path hpath bytes hread
    exact (huntouched.read_iff path (List.mem_cons_of_mem _ hpath) bytes).mpr hread'
  have hkept : (unitTests s).kept v = (unitTests s).kept u :=
    readOr_congr _ _ (huntouched.read_iff _ (List.mem_cons_self ..))
  refine ⟨graphAt_of_read_of_ok (hsource _ (List.mem_cons_self ..)) hgraph, ?_⟩
  rcases h.tests with hfound | ⟨hnil, hnone⟩
  · exact ⟨none, selectionAt_of_kept (hkept.trans hfound), Or.inr rfl⟩
  · have hkept' : (unitTests s).kept v = .ok none :=
      hkept.trans (readOr_of_isFile (isFile_eq_false_of_contents? hnone))
    rcases selectionAt_cases hselection with ⟨hfound, -⟩ | ⟨unmatched, -, htests, -⟩
    · -- no selection that is kept is empty
      obtain ⟨bytes, -, hdecode⟩ := kept_unitTests_iff.mp hfound
      exact absurd hnil (MethodList.decode_eq_ok_iff.mp hdecode).1
    · have htests' := testsAt_of_read_of_ok
        (fun path hpath => hsource path (List.mem_cons_of_mem _ (Option.mem_toList.mpr hpath))) htests
      exact ⟨some unmatched, selectionAt_of_tests hkept' htests', Or.inl hnil⟩

/-- Whether a run has computed an index and written the report and the snapshot of it. -/
structure Produces (s : Settings) (index : CallIndex)
    (p : Except Failure (CallIndex × Summary) × World) : Prop where
  result : ∃ details, p.1 = .ok (index, .ofIndex index (some details))
  report : p.2.files.read s.reportPath = .ok (Report.encode index)
  snapshot : p.2.files.read s.snapshotPath = .ok (Snapshot.encode index)

/-- A run that succeeds without a snapshot produces what it has computed. -/
theorem produces_of_ok {w : World} {r : CallIndex × Details}
    (hs : s.NamesApart w.files.workingDirectory) (hnone : (snapshot s).kept w.files = .ok none)
    (hcomputed : computedAt s w.files = .ok r)
    (hok : (w.run (run s Report.write)).1.isOk = true) :
    Produces s r.1 (w.run (run s Report.write)) := by
  let dir := w.files.workingDirectory
  have hrun : Triple World (· = w.files) (run s Report.write)
      (fun found u => (∃ details, found = (r.1, .ofIndex r.1 (some details))) ∧
        u.read s.reportPath = .ok (Report.encode r.1) ∧
        u.read s.snapshotPath = .ok (Snapshot.encode r.1))
      (fun _ _ => True) := by
    refine triple_run_of_none (fun r' u => r'.1 = r.1 ∧ u.workingDirectory = dir)
      (fun r' u => r'.1 = r.1 ∧ u.workingDirectory = dir ∧
        u.read s.reportPath = .ok (Report.encode r.1)) hnone ?_ ?_ ?_
    · refine (triple_compute_at s w.files).mono (fun _ h => h) ?_ fun _ _ _ => trivial
      rintro r' u ⟨g, selection, hgraph, hselection, hr, hstored⟩
      have hr' := computedAt_eq_ok_iff.mpr ⟨g, selection, hgraph, hselection, hr⟩
      cases hcomputed.symm.trans hr'
      refine ⟨rfl, ?_⟩
      cases hstored with
      | kept tests => rfl
      | none unmatched => rfl
      | written hne hwritten => exact hwritten.stays.workingDirectory_eq
    · intro r'
      refine Report.triple_write ?_ fun _ _ _ _ _ => trivial
      rintro u v ⟨hr, hdir⟩ hwritten
      exact ⟨hr, hwritten.stays.workingDirectory_eq.trans hdir, hr ▸ hwritten.read⟩
    · intro r'
      refine Artifact.triple_store ?_ fun _ _ _ _ _ => trivial
      rintro u v ⟨hr, hdir, hreport⟩ hwritten
      have hne : Path.place u.workingDirectory s.reportPath ≠
          Path.place u.workingDirectory s.snapshotPath := hdir ▸ hs.artifacts.2.2.symm
      refine ⟨⟨r'.2, by rw [hr]⟩, hwritten.stays.read hwritten.keeps hne hreport, ?_⟩
      exact hr ▸ hwritten.read
  obtain ⟨found, hfound⟩ := isOk_iff.mp hok
  obtain ⟨⟨details, rfl⟩, hreport, hsnapshot⟩ := hrun.of_ok rfl hfound
  exact ⟨⟨details, hfound⟩, hreport, hsnapshot⟩

/-- A run that succeeds on the files that settle an index, and with no snapshot, produces it. -/
theorem produces_of_untouched {w : World} (hs : s.NamesApart t.workingDirectory)
    (hgraph : graphAt s.callLog t = .ok g) (hselection : selectionAt s g t = .ok selection)
    (huntouched : Untouched (s.unitTestPath :: s.sourcePaths) t w.files)
    (habsent : w.files.isFile s.snapshotPath = false)
    (hok : (w.run (run s Report.write)).1.isOk = true) :
    Produces s (result s g selection).1 (w.run (run s Report.write)) := by
  have hnone : (snapshot s).kept w.files = .ok none := readOr_of_isFile habsent
  have hsource := fun path hpath => huntouched.read_iff path (List.mem_cons_of_mem _ hpath)
  have hkept : (unitTests s).kept w.files = (unitTests s).kept t :=
    readOr_congr _ _ (huntouched.read_iff _ (List.mem_cons_self ..))
  have htests : testsAt s g w.files = testsAt s g t :=
    testsAt_congr fun path hpath => hsource path
      (List.mem_cons_of_mem _ (Option.mem_toList.mpr hpath))
  have hgraph' : graphAt s.callLog w.files = .ok g :=
    graphAt_of_read_of_ok (fun bytes => (hsource _ (List.mem_cons_self ..) bytes).mpr) hgraph
  have hselection' : selectionAt s g w.files = .ok selection := by
    rw [selectionAt, hkept, htests]
    exact hselection
  have hcomputed := computedAt_eq_ok_iff.mpr ⟨g, selection, hgraph', hselection', rfl⟩
  exact produces_of_ok (huntouched.workingDirectory_eq ▸ hs) hnone hcomputed hok

/-- What comes of saving the report of an index and then its snapshot. -/
def saveBoth (s : Settings) (index : CallIndex) (t : FileTree) :
    Except Fault Unit × Except Fault Unit :=
  let reported := t.save s.reportPath (Report.encode index)
  (reported.1, (reported.2.save s.snapshotPath (Snapshot.encode index)).1)

/-- A run succeeds if it need not store the tests and its other files can be saved. -/
theorem run_isOk {w : World} (hnone : (snapshot s).kept w.files = .ok none)
    (hgraph : graphAt s.callLog w.files = .ok g)
    (hselection : selectionAt s g w.files = .ok selection)
    (hunstored : selection.1 = [] ∨ selection.2 = none)
    (hsaves : saveBoth s (result s g selection).1 w.files = (.ok (), .ok ())) :
    (w.run (run s Report.write)).1.isOk = true := by
  let u := (w.files.save s.reportPath (Report.encode (result s g selection).1)).2
  obtain ⟨hreport, hsnapshot⟩ := Prod.mk.inj hsaves
  have hrun : Triple World (· = w.files) (run s Report.write) (fun _ _ => True) (fun _ _ => False) := by
    refine triple_run_of_none (fun r u => r = result s g selection ∧ u = w.files)
      (fun r v => r = result s g selection ∧ v = u) hnone ?_ ?_ ?_
    · exact triple_compute_unstored hgraph hselection hunstored
    · refine fun r => .of_forall ?_
      rintro _ ⟨rfl, rfl⟩
      exact (Triple.save_ok hreport).mono (fun _ h => h) (fun _ _ h => ⟨rfl, h⟩) fun _ _ h => h
    · refine fun r => .of_forall ?_
      rintro _ ⟨rfl, rfl⟩
      exact (Triple.save_ok hsnapshot).mono (fun _ h => h) (fun _ _ _ => trivial) fun _ _ h => h
  obtain ⟨found, hfound, -⟩ := hrun.exists_ok rfl
  exact isOk_iff.mpr ⟨found, hfound⟩

/-- Whether the cause of a failure is gone: what the failed run could not write can be written, while
the files that a run reads are as the failed run has left them. -/
structure CauseRemoved (s : Settings) (index : CallIndex) (t u : FileTree) : Prop where
  untouched : Untouched (s.unitTestPath :: s.sourcePaths) t u
  writable : saveBoth s index u = (.ok (), .ok ())

/-- A run that fails late, on a disk that may stop its writes half-way, and the world in which it is
retried: the cause of the failure is gone, and every write goes through. -/
structure Retried (s : Settings) (exporter : Exporter (StateM LimitedWorld)) (x : LimitedWorld)
    (v : World) (r : CallIndex × Details) : Prop where
  apart : s.NamesApart x.files.workingDirectory
  confined : exporter.Confined s.reportPath
  fails : FailsLate s exporter x r
  removed : CauseRemoved s r.1 (x.run (run s exporter)).2.files v.files

/-- A retry gives the index that the failed run has computed, and writes its report and its snapshot,
as the failed run would have had it succeeded. What the failed run may have left of the snapshot must be
gone. -/
theorem retry_produces_computed (s : Settings) (exporter : Exporter (StateM LimitedWorld))
    (x : LimitedWorld) (v : World) (r : CallIndex × Details) (h : Retried s exporter x v r)
    (hfinds : FindsTests s x.files) (habsent : v.files.isFile s.snapshotPath = false) :
    Produces s r.1 (v.run (run s Report.write)) ∧
    ∀ w : World, Untouched (s.unitTestPath :: s.sourcePaths) x.files w.files →
      w.files.isFile s.snapshotPath = false → (w.run (run s Report.write)).1.isOk = true →
      Produces s r.1 (w.run (run s Report.write)) := by
  obtain ⟨hs, hexporter, hfails, hremoved⟩ := h
  obtain ⟨g, selection, hgraph, hselection, hr, z, hstored, hrun⟩ := hfails.exists_selection
  constructor
  · have hremains : Remains s x.files selection (x.run (run s exporter)).2.files := by
      have hz := hstored.remains hs hfinds hgraph hselection
      obtain ⟨failure, hfailure⟩ := hfails.fails
      rw [hrun] at hfailure ⊢
      exact (triple_finish_remains hs hexporter).of_error hz hfailure
    obtain ⟨hgraph', unmatched, hselection', hunstored⟩ :=
      hremains.selectionAt_retry hremoved.untouched hgraph hselection
    have hnone : (snapshot s).kept v.files = .ok none := readOr_of_isFile habsent
    -- the index is that of the same tests, from wherever they come
    have hindex : (result s g (selection.1, unmatched)).1 = r.1 := by
      rw [← hr]
      rfl
    have hwritable := hremoved.writable
    rw [← hindex] at hwritable ⊢
    have hdir : v.files.workingDirectory = x.files.workingDirectory :=
      hremoved.untouched.workingDirectory_eq.trans hremains.sources.workingDirectory_eq
    have hcomputed := computedAt_eq_ok_iff.mpr ⟨g, _, hgraph', hselection', rfl⟩
    have hok := run_isOk hnone hgraph' hselection' hunstored hwritable
    exact produces_of_ok (hdir ▸ hs) hnone hcomputed hok
  · intro w huntouched habsent hok
    rw [← hr]
    exact produces_of_untouched hs hgraph hselection huntouched habsent hok

/-- What can be checked, by evaluation, of what is computed, of a failed run and of the files that are
there for a retry. -/
def Retriable (s : Settings) (computed : Except Failure (CallIndex × Details))
    (p : Except Failure (CallIndex × Summary) × LimitedWorld) (v : FileTree) : Prop :=
  p.1.isOk = false ∧ v.workingDirectory = p.2.files.workingDirectory ∧
    (∀ path ∈ s.unitTestPath :: s.sourcePaths, v.read path = p.2.files.read path) ∧
    computed.map (fun r => saveBoth s r.1 v) = .ok (.ok (), .ok ())

instance (s : Settings) (computed : Except Failure (CallIndex × Details))
    (p : Except Failure (CallIndex × Summary) × LimitedWorld) (v : FileTree) :
    Decidable (Retriable s computed p v) :=
  inferInstanceAs (Decidable (_ ∧ _ ∧ _ ∧ _))

theorem Retriable.exists_retried {x : LimitedWorld} {w : World}
    {p : Except Failure (CallIndex × Summary) × LimitedWorld}
    (h : Retriable s (x.run (beforeExport s)).1 p w.files) (hp : x.run (run s Report.write) = p)
    (hs : s.NamesApart x.files.workingDirectory) (hstart : x.files.isFile s.snapshotPath = false) :
    ∃ r, (x.run (beforeExport s)).1 = .ok r ∧ Retried s Report.write x w r := by
  obtain ⟨hfails, hdir, hread, hsaves⟩ := h
  subst hp
  have huntouched : Untouched (s.unitTestPath :: s.sourcePaths)
      (x.run (run s Report.write)).2.files w.files :=
    ⟨hdir, fun path hpath bytes => by rw [hread path hpath]⟩
  have hfailure : ∃ failure, (x.run (run s Report.write)).1 = .error failure := by
    cases hrun : (x.run (run s Report.write)).1 with
    | error failure => exact ⟨failure, rfl⟩
    | ok found =>
      rw [hrun] at hfails
      cases hfails
  cases hcompute : (x.run (beforeExport s)).1 with
  | error failure =>
    rw [hcompute] at hsaves
    cases hsaves
  | ok r =>
    rw [hcompute] at hsaves
    exact ⟨r, rfl, hs, Report.confined_write _, ⟨hstart, hcompute, hfailure⟩, huntouched,
      Except.ok.inj hsaves⟩

/-- Where the standard settings keep the snapshot. -/
def snapshotPlace : Location := ["work", "logs", "call_entries.bin"]

/-- A log with two calls, and a disk that is full after eight bytes of the snapshot; the tests and the
report are written before it. -/
def filling : LimitedWorld :=
  .ofFiles (withLog twoCalls)
    [none, none, some ⟨some 8, .other "No space left on device (os error 28)"⟩]

theorem retriable_filling {p : Except Failure (CallIndex × Summary) × LimitedWorld}
    (hp : filling.run (run .standard Report.write) = p) :
    let v := p.2.files.erase snapshotPlace
    Retriable .standard (filling.run (beforeExport .standard)).1 p v ∧
      v.isFile Settings.standard.snapshotPath = false ∧
      p.2.files.isFile Settings.standard.unitTestPath = true ∧
      p.2.files.isFile Settings.standard.snapshotPath = true := by
  subst hp
  decide +kernel

/-- The run stores the tests, writes the report and a start of the snapshot, which is removed. -/
theorem retry_produces_computed_filling :
    let s := Settings.standard
    let p := filling.run (run s Report.write)
    let v := World.ofFiles (p.2.files.erase snapshotPlace)
    ∃ r, Retried s Report.write filling v r ∧ FindsTests s filling.files ∧
      v.files.isFile s.snapshotPath = false ∧ p.2.files.isFile s.unitTestPath = true ∧
      p.2.files.isFile s.snapshotPath = true ∧ Produces s r.1 (v.run (run s Report.write)) := by
  intro s p v
  -- the run is kept as a name: what it comes to need not be evaluated again
  have hp : filling.run (run s Report.write) = p := rfl
  clear_value p
  obtain ⟨hretriable, habsent, htests, hbroken⟩ := retriable_filling hp
  have hstart : filling.files.isFile s.snapshotPath = false := by decide +kernel
  have hfinds : FindsTests s filling.files := Or.inl (by decide +kernel)
  obtain ⟨r, -, hretried⟩ := hretriable.exists_retried (w := v) hp namesApart_standard hstart
  have hretry := retry_produces_computed s Report.write filling v r hretried hfinds habsent
  exact ⟨r, hretried, hfinds, habsent, htests, hbroken, hretry.1⟩

/-- Settings by which the selection is found only once there is a directory for the report. -/
def detouring : Settings :=
  { Settings.standard with
    unitTestCache := "out/../tests.json"
    entryJson := "out/call_entries.json" }

/-- A log that has no tests in it, a selection, and a directory where the snapshot shall be. -/
def detoured : LimitedWorld :=
  .ofFiles (((withLog (Text.Utf8.ofString "M:A:b()->A:c()\n")).put ["work", "logs", "tests.json"]
    (.file (Text.Utf8.ofString "[\"A:b()\"]"))).put snapshotPlace .directory) []

theorem retriable_detoured {p : Except Failure (CallIndex × Summary) × LimitedWorld}
    (hp : detoured.run (run detouring Report.write) = p) :
    let v := World.ofFiles (p.2.files.erase snapshotPlace)
    Retriable detouring (detoured.run (beforeExport detouring)).1 p v.files ∧
      v.files.isFile detouring.snapshotPath = false ∧
      (detoured.run (beforeExport detouring)).1.map (·.1.size) = .ok 0 ∧
      (v.run (run detouring Report.write)).1.map (·.1.size) = .ok 1 := by
  subst hp
  decide +kernel

/-- The selection is not found at first, so the run selects no tests; then it makes the directory for
the report, and the retry finds the selection. -/
theorem not_produces_detoured :
    let s := detouring
    let v := World.ofFiles ((detoured.run (run s Report.write)).2.files.erase snapshotPlace)
    v.files.isFile s.snapshotPath = false ∧
      ∃ r, Retried s Report.write detoured v r ∧ ¬ Produces s r.1 (v.run (run s Report.write)) := by
  intro s v
  have hp : detoured.run (run s Report.write) = _ := rfl
  obtain ⟨hretriable, habsent, hcomputed, hretried⟩ := retriable_detoured hp
  have hstart : detoured.files.isFile s.snapshotPath = false := by decide +kernel
  have hs : s.NamesApart detoured.files.workingDirectory := by decide +kernel
  obtain ⟨r, hcompute, hretry⟩ := hretriable.exists_retried (w := v) hp hs hstart
  refine ⟨habsent, r, hretry, fun hproduces => ?_⟩
  obtain ⟨details, hresult⟩ := hproduces.result
  rw [hcompute] at hcomputed
  rw [hresult] at hretried
  have hsize : (0 : Nat) = 1 := Except.ok.inj (hcomputed.symm.trans hretried)
  cases hsize

theorem retriable_broken {p : Except Failure (CallIndex × Summary) × LimitedWorld}
    (hp : filling.run (run .standard Report.write) = p) :
    let v := World.ofFiles p.2.files
    Retriable .standard (filling.run (beforeExport .standard)).1 p v.files ∧
      (v.run (run .standard Report.write)).1.isOk = false := by
  subst hp
  decide +kernel

/-- A start of the snapshot is left, which is refused. -/
theorem not_produces_broken :
    let s := Settings.standard
    let v := World.ofFiles (filling.run (run s Report.write)).2.files
    FindsTests s filling.files ∧
      ∃ r, Retried s Report.write filling v r ∧ ¬ Produces s r.1 (v.run (run s Report.write)) := by
  intro s v
  have hp : filling.run (run s Report.write) = _ := rfl
  obtain ⟨hretriable, hretried⟩ := retriable_broken hp
  have hstart : filling.files.isFile s.snapshotPath = false := by decide +kernel
  have hfinds : FindsTests s filling.files := Or.inl (by decide +kernel)
  obtain ⟨r, -, hretry⟩ := hretriable.exists_retried (w := v) hp namesApart_standard hstart
  refine ⟨hfinds, r, hretry, fun hproduces => ?_⟩
  obtain ⟨details, hresult⟩ := hproduces.result
  rw [hresult] at hretried
  cases hretried

/-- Neither condition can be left out: that a selection that is there is found, or that nothing is left
of the snapshot. -/
theorem retry_not_produces :
    (let s := detouring
      let v := World.ofFiles ((detoured.run (run s Report.write)).2.files.erase snapshotPlace)
      v.files.isFile s.snapshotPath = false ∧
        ∃ r, Retried s Report.write detoured v r ∧
          ¬ Produces s r.1 (v.run (run s Report.write))) ∧
    (let s := Settings.standard
      let v := World.ofFiles (filling.run (run s Report.write)).2.files
      FindsTests s filling.files ∧
        ∃ r, Retried s Report.write filling v r ∧
          ¬ Produces s r.1 (v.run (run s Report.write))) :=
  ⟨not_produces_detoured, not_produces_broken⟩

end Analysis

end CallDepth
