import CallDepth.Proofs.Analysis.Computed

/-!
# Runs that fail

A run stores the selection of the tests, then the report and last of all the snapshot. A run that
fails therefore leaves no snapshot, and one that fails while it still reads leaves everything as it
was.
-/

namespace CallDepth

open FileTree

/-! ### What settings name -/

namespace Settings

/-- The files that an analysis keeps. -/
def artifactPaths (s : Settings) : List String := [s.unitTestPath, s.snapshotPath, s.reportPath]

theorem unitTestPath_mem (s : Settings) : s.unitTestPath ∈ s.artifactPaths := by
  simp [artifactPaths]

theorem snapshotPath_mem (s : Settings) : s.snapshotPath ∈ s.artifactPaths := by
  simp [artifactPaths]

theorem reportPath_mem (s : Settings) : s.reportPath ∈ s.artifactPaths := by
  simp [artifactPaths]

/-- The files that an analysis reads and others write. -/
def sourcePaths (s : Settings) : List String := s.callLog :: s.testList.toList

/-- Whether all files that settings name, meant from a working directory, are different ones. -/
def NamesApart (s : Settings) (dir : Location) : Prop :=
  ((s.artifactPaths ++ s.sourcePaths).map (Path.place dir)).Nodup

instance (s : Settings) (dir : Location) : Decidable (s.NamesApart dir) :=
  inferInstanceAs (Decidable (List.Nodup _))

variable {s : Settings} {dir : Location}

theorem NamesApart.artifacts (h : s.NamesApart dir) :
    Path.place dir s.unitTestPath ≠ Path.place dir s.snapshotPath ∧
      Path.place dir s.unitTestPath ≠ Path.place dir s.reportPath ∧
      Path.place dir s.snapshotPath ≠ Path.place dir s.reportPath := by
  rw [NamesApart, List.map_append] at h
  have hartifacts := (List.nodup_append.mp h).1
  simpa [artifactPaths, and_assoc] using hartifacts

theorem NamesApart.sources (h : s.NamesApart dir) {source artifact : String}
    (hsource : source ∈ s.sourcePaths) (hartifact : artifact ∈ s.artifactPaths) :
    Path.place dir source ≠ Path.place dir artifact := by
  rw [NamesApart, List.map_append] at h
  have happart := (List.nodup_append.mp h).2.2
  exact (happart _ (List.mem_map_of_mem hartifact) _ (List.mem_map_of_mem hsource)).symm

end Settings

/-- Whether an exporter leaves all files but the one at the path that it is given, however it fares;
directories may come and go. -/
def Exporter.TouchesOnly (exporter : Exporter (StateM World)) (path : String) : Prop :=
  ∀ (index : CallIndex) (w : World),
    Keeps (· ≠ Path.place w.files.workingDirectory path) w.files
      (w.run (exporter index path)).2.files

theorem Report.touchesOnly_write (path : String) : Exporter.TouchesOnly Report.write path := by
  intro index w
  have hwrite : Triple World (· = w.files) (Report.write index path)
      (fun _ => Keeps (· ≠ Path.place w.files.workingDirectory path) w.files)
      (fun _ => Keeps (· ≠ Path.place w.files.workingDirectory path) w.files) := by
    refine Report.triple_write ?_ ?_
    · rintro t u rfl hwritten
      exact hwritten.keeps
    · rintro fault t u rfl hrefused
      exact hrefused.keeps
  exact hwrite.files rfl

namespace Analysis

variable {s : Settings} {exporter : Exporter (StateM World)} {t : FileTree}

/-! ### Which files are written -/

/-- Whether a location is that of no file that is stored before the snapshot. -/
def Spared (s : Settings) (dir loc : Location) : Prop :=
  loc ≠ Path.place dir s.unitTestPath ∧ loc ≠ Path.place dir s.reportPath

theorem triple_compute_keeps :
    Triple World (· = t) (compute s) (fun _ => Keeps (Spared s t.workingDirectory) t)
      (fun _ => Keeps (Spared s t.workingDirectory) t) := by
  let spares := Keeps (Spared s t.workingDirectory) t
  have hsame : ∀ u, u = t → spares u := by
    rintro u rfl
    exact .refl _ _
  refine triple_compute (fun _ _ => spares) (fun _ => spares) ?_ ?_ ?_
  · exact fun failure u h _ => hsame u h
  · intro g
    refine Artifact.triple_loadOrComputeWith (fun _ _ u => u = t) ?_ ?_ ?_ ?_ ?_
    · exact fun value u h _ => hsame u h.1
    · exact fun failure u h _ => hsame u h.1
    · exact ((reads_selectTests s g).triple _).mono (fun u h => h) (fun r u h => h.1.1.1)
        fun failure u h => hsame u h.1.1.1
    · intro tests unmatched hstorable
      refine Artifact.triple_store ?_ ?_
      · rintro u v rfl hwritten
        exact hwritten.keeps.mono fun loc hloc => hloc.1
      · rintro fault u v rfl hrefused
        exact hrefused.grows.keeps _
    · exact fun tests unmatched u _ h => hsame u h
  · exact fun g tests u h => h

theorem triple_run_keeps (hexporter : exporter.TouchesOnly s.reportPath) :
    Triple World (· = t) (run s exporter)
      (fun _ => Keeps (fun loc => Spared s t.workingDirectory loc ∧
        loc ≠ Path.place t.workingDirectory s.snapshotPath) t)
      (fun _ => Keeps (Spared s t.workingDirectory) t) := by
  let spares := Keeps (Spared s t.workingDirectory) t
  refine triple_run (fun _ => spares) (fun _ => spares) (fun _ => Keeps _ t) ?_ ?_ ?_ ?_ ?_
  · rintro index u rfl -
    exact .refl _ _
  · rintro failure u rfl -
    exact .refl _ _
  · exact triple_compute_keeps.mono (fun u h => h.1) (fun _ _ h => h) fun _ _ h => h
  · -- the exporter is given the files after computing, which are in the same directory
    rintro ⟨index, details⟩
    refine Triple.of_files ?_
    intro w hw
    have hexport := hexporter index w
    have hdir : w.files.workingDirectory = t.workingDirectory := hw.workingDirectory_eq
    rw [hdir] at hexport
    exact hw.trans (hexport.mono fun loc hloc => hloc.2)
  · rintro ⟨index, details⟩
    refine Artifact.triple_store ?_ ?_
    · intro u v hu hwritten
      have hstore := hwritten.keeps
      rw [hu.workingDirectory_eq] at hstore
      exact (hu.mono fun loc hloc => hloc.1).trans (hstore.mono fun loc hloc => hloc.2)
    · intro fault u v hu hrefused
      exact hu.trans (hrefused.grows.keeps _)

/-! ### Failing while reading -/

/-- The failures of the stages of a run that only read, when there is no snapshot. -/
inductive FailsEarly (s : Settings) (t : FileTree) : Failure → Prop where
  | unreadableLog {fault : Fault} (hlog : t.read s.callLog = .error fault)
      (hfault : fault ≠ .isDirectory) : FailsEarly s t (.callLog s.callLog fault)
  | directoryLog (hlog : t.read s.callLog = .error .isDirectory) :
      FailsEarly s t (.io .isDirectory)
  | malformedLog {log : Bytes} {failure : Failure} (hlog : t.read s.callLog = .ok log)
      (hgraph : CallLog.graph log = .error failure) : FailsEarly s t failure
  | invalidTests {log bytes : Bytes} {g : CallGraph} {reason : String}
      (hlog : t.read s.callLog = .ok log) (hgraph : CallLog.graph log = .ok g)
      (hcache : t.read s.unitTestPath = .ok bytes)
      (hdecode : MethodList.codec.decode bytes = .error reason) :
      FailsEarly s t (.invalidCache s.unitTestPath reason)
  | missingList {log : Bytes} {g : CallGraph} {path : String}
      (hlog : t.read s.callLog = .ok log) (hgraph : CallLog.graph log = .ok g)
      (hcache : t.isFile s.unitTestPath = false) (hlist : s.testList = some path)
      (hmissing : t.isFile path = false) : FailsEarly s t (.missingArtifact path)
  | invalidList {log bytes : Bytes} {g : CallGraph} {path : String}
      (hlog : t.read s.callLog = .ok log) (hgraph : CallLog.graph log = .ok g)
      (hcache : t.isFile s.unitTestPath = false) (hlist : s.testList = some path)
      (hread : t.read path = .ok bytes) (hdecode : TestList.decode? bytes = none) :
      FailsEarly s t (.invalidTestList path "expected a JSON array of test identifiers")

theorem graphAt_of_read {path : String} {log : Bytes} (h : t.read path = .ok log) :
    graphAt path t = CallLog.graph log := by
  rw [graphAt, h]
  rfl

theorem FailsEarly.computedAt_eq {failure : Failure} (h : FailsEarly s t failure) :
    computedAt s t = .error failure := by
  unfold computedAt
  cases h with
  | @unreadableLog fault hlog hfault =>
    rw [graphAt, hlog]
    cases fault with
    | isDirectory => exact absurd rfl hfault
    | _ => rfl
  | directoryLog hlog =>
    rw [graphAt, hlog]
    rfl
  | malformedLog hlog hgraph =>
    rw [graphAt_of_read hlog, hgraph]
    rfl
  | invalidTests hlog hgraph hcache hdecode =>
    have hkept : (unitTests s).kept t = (unitTests s).held _ := readOr_of_read hcache
    rw [Artifact.held, unitTests, hdecode] at hkept
    rw [graphAt_of_read hlog, hgraph]
    simp only [selectionAt, unitTests, hkept]
    rfl
  | missingList hlog hgraph hcache hlist hmissing =>
    have hkept : (unitTests s).kept t = .ok none := readOr_of_isFile hcache
    have hids : TestList.idsAt _ t = .error _ := readOr_of_isFile hmissing
    rw [graphAt_of_read hlog, hgraph]
    simp only [selectionAt, hkept, testsAt, hlist, hids]
    rfl
  | invalidList hlog hgraph hcache hlist hread hdecode =>
    have hkept : (unitTests s).kept t = .ok none := readOr_of_isFile hcache
    have hids : TestList.idsAt _ t = TestList.held _ _ := readOr_of_read hread
    rw [graphAt_of_read hlog, hgraph]
    simp only [selectionAt, hkept, testsAt, hlist, hids, TestList.held, hdecode]
    rfl

/-- A run that stops while it reads fails with what stopped it and leaves everything. -/
theorem triple_run_of_computedAt {failure : Failure} (hsnapshot : (snapshot s).kept t = .ok none)
    (h : computedAt s t = .error failure) :
    Triple World (· = t) (run s exporter) (fun _ _ => False) (fun found u => found = failure ∧ u = t) := by
  refine triple_run_of_none (fun _ _ => False) (fun _ _ => False) hsnapshot ?_
    (fun _ => .of_false) (fun _ => .of_false)
  refine (triple_compute_at s t).mono (fun _ h => h) ?_ ?_
  · rintro r u ⟨g, selection, hgraph, hselection, hr, -⟩
    cases h.symm.trans (computedAt_eq_ok_iff.mpr ⟨g, selection, hgraph, hselection, hr⟩)
  · intro found u hfails
    cases hfails with
    | reading hfound => exact ⟨Except.error.inj (hfound.symm.trans h), rfl⟩
    | storing hgraph hselection =>
      cases h.symm.trans (computedAt_eq_ok_iff.mpr ⟨_, _, hgraph, hselection, rfl⟩)

theorem triple_run_of_kept_error {failure : Failure}
    (h : (snapshot s).kept t = .error failure) :
    Triple World (· = t) (run s exporter) (fun _ _ => False) (fun found u => found = failure ∧ u = t) := by
  refine triple_run (fun _ _ => False) (fun _ _ => False) (fun _ _ => False) ?_ ?_ ?_
    (fun _ => .of_false) (fun _ => .of_false)
  · rintro index u rfl hkept
    cases hkept.symm.trans h
  · rintro found u rfl hkept
    exact ⟨Except.error.inj (hkept.symm.trans h), rfl⟩
  · refine Triple.of_false.mono ?_ (fun _ _ h => h) fun _ _ h => h
    rintro u ⟨rfl, hkept⟩
    cases hkept.symm.trans h

theorem error_of_triple {p : Task (StateM World) (CallIndex × Summary)} {w : World}
    {failure : Failure}
    (h : Triple World (· = w.files) p (fun _ _ => False) fun found u => found = failure ∧ u = w.files) :
    (w.run p).1 = .error failure ∧ (w.run p).2.files = w.files := by
  cases hrun : (w.run p).1 with
  | ok result => exact (h.of_ok rfl hrun).elim
  | error found =>
    obtain ⟨rfl, hfiles⟩ := h.of_error rfl hrun
    exact ⟨rfl, hfiles⟩

/-- What a run leaves if it fails. Without a snapshot there is none afterwards, and the call log and
the list of tests are as they were; if the run fails while it reads, so is everything else. A
snapshot that does not decode is reported, and everything is left as it was. -/
theorem run_failure_keeps_files (s : Settings) (exporter : Exporter (StateM World)) (w : World)
    (hs : s.NamesApart w.files.workingDirectory)
    (hexporter : exporter.TouchesOnly s.reportPath) :
    let t := w.files
    let result := (w.run (run s exporter)).1
    let u := (w.run (run s exporter)).2.files
    (∀ failure, t.contents? s.snapshotPath = none → result = .error failure →
      u.contents? s.snapshotPath = none ∧ u.isFile s.snapshotPath = false ∧
        ∀ path ∈ s.sourcePaths, u.contents? path = t.contents? path) ∧
    (∀ failure, t.contents? s.snapshotPath = none → FailsEarly s t failure →
      result = .error failure ∧ u = t) ∧
    ∀ bytes reason, t.read s.snapshotPath = .ok bytes →
      Snapshot.codec.decode bytes = .error reason →
      result = .error (.invalidCache s.snapshotPath reason) ∧ u = t := by
  intro t result u
  have hspared : ∀ path ∈ s.snapshotPath :: s.sourcePaths,
      Spared s t.workingDirectory (Path.place t.workingDirectory path) := by
    intro path hpath
    rcases List.mem_cons.mp hpath with rfl | hsource
    · exact ⟨hs.artifacts.1.symm, hs.artifacts.2.2⟩
    · exact ⟨hs.sources hsource s.unitTestPath_mem, hs.sources hsource s.reportPath_mem⟩
  refine ⟨?_, ?_, ?_⟩
  · intro failure hnone hfailure
    have hkeeps := (triple_run_keeps hexporter).of_error rfl hfailure
    have hsnapshot := hkeeps.contents?_eq (hspared _ (List.mem_cons_self ..))
    refine ⟨hsnapshot.trans hnone, isFile_eq_false_of_contents? (hsnapshot.trans hnone), ?_⟩
    exact fun path hpath => hkeeps.contents?_eq (hspared path (List.mem_cons_of_mem _ hpath))
  · intro failure hnone hearly
    have hkept : (snapshot s).kept t = .ok none :=
      readOr_of_isFile (isFile_eq_false_of_contents? hnone)
    exact error_of_triple (triple_run_of_computedAt hkept hearly.computedAt_eq)
  · intro bytes reason hread hdecode
    have hkept : (snapshot s).kept t = .error (.invalidCache s.snapshotPath reason) := by
      have hheld : (snapshot s).kept t = (snapshot s).held bytes := readOr_of_read hread
      rw [hheld, Artifact.held, snapshot, hdecode]
    exact error_of_triple (triple_run_of_kept_error hkept)

/-- A tree with nothing but a call log, where the standard settings expect it. -/
def withLog (log : Bytes) : FileTree :=
  ⟨[(["work", "logs"], .directory), (["work", "logs", "test_source_call.log"], .file log)],
    ["work"]⟩

theorem namesApart_standard : Settings.standard.NamesApart ["work"] := by decide +kernel

/-- A log with one record, and a line that has the marker and is none. -/
def broken : Bytes := Text.Utf8.ofString "M:Test:test()->Test:b()\r\nM:Test\r\n"

theorem run_broken_log :
    let w := World.ofFiles (withLog broken)
    let p := w.run (run .standard Report.write)
    Settings.standard.NamesApart w.files.workingDirectory ∧
    Exporter.TouchesOnly Report.write Settings.standard.reportPath ∧
    p.1 = .error (.malformedRecord 2 "M:Test") ∧
    p.2.files.contents? Settings.standard.snapshotPath = none ∧ p.2.files = w.files := by
  intro w p
  have hs : Settings.standard.NamesApart w.files.workingDirectory := namesApart_standard
  have hexporter := Report.touchesOnly_write Settings.standard.reportPath
  have hrun := run_failure_keeps_files .standard Report.write w hs hexporter
  have hnone : w.files.contents? Settings.standard.snapshotPath = none := by decide +kernel
  have hearly : FailsEarly .standard w.files (.malformedRecord 2 "M:Test") := by
    have hlog : w.files.read Settings.standard.callLog = .ok broken := by decide +kernel
    exact .malformedLog hlog (by rfl)
  obtain ⟨hresult, hfiles⟩ := hrun.2.1 _ hnone hearly
  exact ⟨hs, hexporter, hresult, (hrun.1 _ hnone hresult).1, hfiles⟩

end Analysis

end CallDepth
