import CallDepth.Proofs.Analysis.Failing
import CallDepth.Proofs.Files.Alike
import CallDepth.Proofs.Log.Size
import CallDepth.Proofs.Store.MethodList

/-!
# Agreement of what is kept

The snapshot is stored after the report of the same index, and no more is stored than can be read
back. So each operation, wherever it fails, leaves files of which the later ones can make use: a
selection of tests, and a snapshot with its report.
-/

namespace CallDepth

open FileTree

def Failure.IsInvalidCache : Failure → Prop
  | invalidCache _ _ => True
  | _ => False

/-! ### Exporters -/

/-- Whether an exporter writes the report to a path and nothing else, or fails with an acceptable
failure before it has written anything. -/
def Exporter.Reports (exporter : Exporter (StateM World)) (path : String)
    (acceptable : Failure → Prop) : Prop :=
  ∀ (index : CallIndex) (t : FileTree), Triple World (· = t) (exporter index path)
    (fun _ => Written path (Report.encode index) t)
    (fun failure u => Grows t u ∧ acceptable failure)

theorem Report.reports_write (path : String) {acceptable : Failure → Prop}
    (h : ∀ failure : Failure, ¬ failure.IsInvalidCache → acceptable failure) :
    Exporter.Reports Report.write path acceptable := by
  intro index t
  refine Report.triple_write ?_ ?_
  · rintro _ u rfl hwritten
    exact hwritten
  · rintro fault _ u rfl hrefused
    exact ⟨hrefused.grows, h _ id⟩

namespace Analysis

variable {s s' : Settings} {exporter : Exporter (StateM World)} {t u : FileTree}

/-! ### The invariant -/

/-- What holds of the files between two operations. -/
structure Sound (s : Settings) (t : FileTree) : Prop where
  apart : s.NamesApart t.workingDirectory
  unitTests : ∀ bytes, t.contents? s.unitTestPath = some bytes →
    ∃ tests, MethodList.decode bytes = .ok tests ∧ KeepsTests tests
  /-- A snapshot is one that a run finds, and its report is there. -/
  snapshot : ∀ bytes, t.contents? s.snapshotPath = some bytes →
    t.read s.snapshotPath = .ok bytes ∧
      ∃ index, Snapshot.decode bytes = .ok index ∧
        t.read s.reportPath = .ok (Report.encode index)

/-- What holds of the files until a run has stored the snapshot. -/
structure Pending (s : Settings) (t : FileTree) : Prop where
  sound : Sound s t
  snapshot_absent : t.contents? s.snapshotPath = none

namespace Sound

theorem kept_unitTests (h : Sound s t) :
    (Analysis.unitTests s).kept t = .ok none ∨
      ∃ tests, (Analysis.unitTests s).kept t = .ok (some tests) ∧ KeepsTests tests := by
  rcases (Analysis.unitTests s).kept_cases t with ⟨bytes, hread, -⟩ | ⟨-, hkept⟩
  · obtain ⟨tests, hdecode, htests⟩ := h.unitTests bytes (contents?_of_read hread)
    exact Or.inr ⟨tests, kept_unitTests_iff.mpr ⟨bytes, hread, hdecode⟩, htests⟩
  · exact Or.inl hkept

theorem kept_snapshot (h : Sound s t) :
    ((Analysis.snapshot s).kept t = .ok none ∧ t.contents? s.snapshotPath = none) ∨
      ∃ bytes index, t.read s.snapshotPath = .ok bytes ∧ Snapshot.decode bytes = .ok index ∧
        (Analysis.snapshot s).kept t = .ok (some index) := by
  rcases (Analysis.snapshot s).kept_cases t with ⟨bytes, hread, -⟩ | ⟨hfile, hkept⟩
  · obtain ⟨-, index, hdecode, -⟩ := h.snapshot bytes (contents?_of_read hread)
    exact Or.inr ⟨bytes, index, hread, hdecode, kept_snapshot_iff.mpr ⟨bytes, hread, hdecode⟩⟩
  · refine Or.inl ⟨hkept, Option.eq_none_iff_forall_ne_some.mpr fun bytes hbytes => ?_⟩
    have hfile' := isFile_iff.mpr ⟨bytes, (h.snapshot bytes hbytes).1⟩
    exact Bool.noConfusion (hfile.symm.trans hfile')

theorem kept_unitTests_ne_error (h : Sound s t) (failure : Failure) :
    (Analysis.unitTests s).kept t ≠ .error failure := by
  intro hkept
  rcases h.kept_unitTests with hnone | ⟨tests, hfound, -⟩
  · cases hkept.symm.trans hnone
  · cases hkept.symm.trans hfound

theorem kept_snapshot_ne_error (h : Sound s t) (failure : Failure) :
    (Analysis.snapshot s).kept t ≠ .error failure := by
  intro hkept
  rcases h.kept_snapshot with ⟨hnone, -⟩ | ⟨_, index, -, -, hfound⟩
  · cases hkept.symm.trans hnone
  · cases hkept.symm.trans hfound

/-- A change that leaves the files that are kept, be it to other files or to what else is set. -/
theorem change (h : Sound s t) (hleaves : Leaves s.artifactPaths t u)
    (hpaths : s'.artifactPaths = s.artifactPaths) (happart : s'.NamesApart u.workingDirectory) :
    Sound s' u := by
  simp only [Settings.artifactPaths, List.cons.injEq, and_true] at hpaths
  obtain ⟨hunitTests, hsnapshot, hreport⟩ := hpaths
  refine ⟨happart, fun bytes hbytes => ?_, fun bytes hbytes => ?_⟩
  · rw [hunitTests, hleaves.contents?_eq _ s.unitTestPath_mem] at hbytes
    exact h.unitTests bytes hbytes
  · rw [hsnapshot, hleaves.contents?_eq _ s.snapshotPath_mem] at hbytes
    obtain ⟨hread, index, hdecode, hreport'⟩ := h.snapshot bytes hbytes
    rw [hsnapshot, hreport]
    exact ⟨hleaves.read _ s.snapshotPath_mem _ hread, index, hdecode,
      hleaves.read _ s.reportPath_mem _ hreport'⟩

theorem grows (h : Sound s t) (hgrows : Grows t u) : Sound s u :=
  h.change (hgrows.leaves _) rfl (hgrows.workingDirectory_eq ▸ h.apart)

end Sound

/-! ### Writing one of the files -/

section

variable {path : String} {written : Bytes}

theorem Sound.apart_of_written (h : Sound s t) (hwritten : Written path written t u) :
    s.NamesApart u.workingDirectory := by
  rw [hwritten.stays.workingDirectory_eq]
  exact h.apart

theorem Sound.unitTests_of_written (h : Sound s t) (hwritten : Written path written t u)
    (hne : Path.place t.workingDirectory s.unitTestPath ≠ Path.place t.workingDirectory path) :
    ∀ bytes, u.contents? s.unitTestPath = some bytes →
      ∃ tests, MethodList.decode bytes = .ok tests ∧ KeepsTests tests := by
  rw [hwritten.keeps.contents?_eq hne]
  exact h.unitTests

theorem Pending.absent_of_written (h : Pending s t) (hwritten : Written path written t u)
    (hne : Path.place t.workingDirectory s.snapshotPath ≠ Path.place t.workingDirectory path) :
    u.contents? s.snapshotPath = none :=
  (hwritten.keeps.contents?_eq hne).trans h.snapshot_absent

end

theorem Pending.unitTests_written {tests : List Method} (h : Pending s t)
    (hwritten : Written s.unitTestPath (MethodList.encode tests) t u) (hne : tests ≠ [])
    (htests : KeepsTests tests) : Pending s u := by
  have habsent := h.absent_of_written hwritten h.sound.apart.artifacts.1.symm
  refine ⟨⟨h.sound.apart_of_written hwritten, fun bytes hbytes => ?_, fun bytes hbytes => ?_⟩,
    habsent⟩
  · cases (contents?_of_read hwritten.read).symm.trans hbytes
    exact ⟨tests, MethodList.decode_encode hne fun m hm => (htests.2 m hm).1, htests⟩
  · cases habsent.symm.trans hbytes

theorem Pending.report_written {index : CallIndex} (h : Pending s t)
    (hwritten : Written s.reportPath (Report.encode index) t u) : Pending s u := by
  obtain ⟨-, hunitTests, hsnapshot⟩ := h.sound.apart.artifacts
  have habsent := h.absent_of_written hwritten hsnapshot
  refine ⟨⟨h.sound.apart_of_written hwritten, h.sound.unitTests_of_written hwritten hunitTests,
    fun bytes hbytes => ?_⟩, habsent⟩
  cases habsent.symm.trans hbytes

theorem Sound.snapshot_written {index : CallIndex} (h : Sound s t)
    (hwritten : Written s.snapshotPath (Snapshot.encode index) t u) (hindex : Snapshot.Keeps index)
    (hreport : t.read s.reportPath = .ok (Report.encode index)) : Sound s u := by
  obtain ⟨hunitTests, -, hapart⟩ := h.apart.artifacts
  refine ⟨h.apart_of_written hwritten, h.unitTests_of_written hwritten hunitTests,
    fun bytes hbytes => ?_⟩
  cases (contents?_of_read hwritten.read).symm.trans hbytes
  exact ⟨hwritten.read, index, Snapshot.decode_encode hindex,
    hwritten.stays.read hwritten.keeps hapart.symm hreport⟩

/-- The report of the index in the snapshot may be written again. -/
theorem Sound.report_written {bytes : Bytes} {index : CallIndex} (h : Sound s t)
    (hread : t.read s.snapshotPath = .ok bytes) (hdecode : Snapshot.decode bytes = .ok index)
    (hwritten : Written s.reportPath (Report.encode index) t u) : Sound s u := by
  obtain ⟨-, hunitTests, hsnapshot⟩ := h.apart.artifacts
  have hread' := hwritten.stays.read hwritten.keeps hsnapshot hread
  refine ⟨h.apart_of_written hwritten, h.unitTests_of_written hwritten hunitTests,
    fun found hfound => ?_⟩
  cases (contents?_of_read hread').symm.trans hfound
  exact ⟨hread', index, hdecode, hwritten.read⟩

/-! ### Removing one of the files -/

theorem Sound.unitTests_erased (h : Sound s t) (hfile : t.isFile s.unitTestPath = true) :
    Sound s (t.erase (Path.place t.workingDirectory s.unitTestPath)) := by
  obtain ⟨tests, htests⟩ := isFile_iff.mp hfile
  obtain ⟨hsnapshot, hreport, -⟩ := h.apart.artifacts
  refine ⟨h.apart, fun bytes hbytes => ?_, fun bytes hbytes => ?_⟩
  · cases (contents?_erase_place t s.unitTestPath).symm.trans hbytes
  · obtain ⟨hread, index, hdecode, hread'⟩ := h.snapshot bytes (contents?_of_erase hbytes)
    have hgone := contents?_of_read htests
    exact ⟨read_erase hgone hsnapshot.symm hread, index, hdecode,
      read_erase hgone hreport.symm hread'⟩

theorem Sound.snapshot_erased (h : Sound s t) :
    Sound s (t.erase (Path.place t.workingDirectory s.snapshotPath)) := by
  refine ⟨h.apart, fun bytes hbytes => ?_, fun bytes hbytes => ?_⟩
  · exact h.unitTests bytes (contents?_of_erase hbytes)
  · cases (contents?_erase_place t s.snapshotPath).symm.trans hbytes

/-! ### Refreshing -/

theorem triple_refresh : Triple World (Sound s) (refresh s) (fun _ => Sound s) (fun _ _ => False) := by
  have hunitTests : Triple World (Sound s) (unitTests s).invalidate (fun _ => Sound s)
      (fun _ _ => False) :=
    Artifact.triple_invalidate (fun t h _ => h) fun t h hfile => h.unitTests_erased hfile
  exact hunitTests.bind fun _ =>
    Artifact.triple_invalidate (fun t h _ => h) fun t h _ => h.snapshot_erased

/-! ### Reading -/

/-- Whether the length of the call log is a word, as that of any file is. -/
def LogFits (s : Settings) (t : FileTree) : Prop :=
  ∀ log, t.read s.callLog = .ok log → log.length < wordCount

theorem not_isInvalidCache_of_graphAt {path : String} {failure : Failure}
    (h : graphAt path t = .error failure) : ¬ failure.IsInvalidCache := by
  unfold graphAt at h
  cases hread : t.read path with
  | error fault =>
    rw [hread] at h
    cases fault <;> cases h <;> exact id
  | ok log =>
    rw [hread] at h
    obtain ⟨_, _, _, _, _, _, _, rfl⟩ :=
      CallLog.read_eq_error_iff.mp (CallLog.graph_eq_error_iff.mp h)
    exact id

theorem not_isInvalidCache_of_testsAt {g : CallGraph} {failure : Failure}
    (h : testsAt s g t = .error failure) : ¬ failure.IsInvalidCache := by
  unfold testsAt TestList.idsAt readOr at h
  split at h
  · split at h
    · rename_i path _ bytes _
      unfold TestList.held at h
      cases hids : TestList.decode? bytes with
      | none =>
        rw [hids] at h
        cases h
        exact id
      | some ids =>
        rw [hids] at h
        cases h
    · cases h
      exact id
  · cases h

theorem sublist_callers_of_testsAt {g : CallGraph} {tests : List Method} {unmatched : Nat}
    (h : testsAt s g t = .ok (tests, unmatched)) : tests.Sublist g.callers := by
  unfold testsAt at h
  split at h
  · rename_i path _
    cases hids : TestList.idsAt path t with
    | error failure =>
      rw [hids] at h
      cases h
    | ok ids =>
      rw [hids] at h
      cases h
      exact List.filter_sublist
  · cases h
    exact List.filter_sublist

/-! ### Computing -/

theorem keeps_of_graphAt {g : CallGraph} (hlog : LogFits s t)
    (hgraph : graphAt s.callLog t = .ok g) : g.Keeps := by
  cases hread : t.read s.callLog with
  | error fault =>
    rw [graphAt, hread] at hgraph
    cases fault <;> cases hgraph
  | ok log =>
    rw [graphAt_of_read hread] at hgraph
    exact CallLog.keeps_graph hgraph (hlog log hread)

variable {acceptable : Failure → Prop}

/-- The tests are read or selected, and a selection is kept only if there is one. -/
theorem triple_tests_pending {g : CallGraph}
    (hacceptable : ∀ failure : Failure, ¬ failure.IsInvalidCache → acceptable failure) :
    Triple World (fun t => Pending s t ∧ g.Keeps) ((unitTests s).loadOrComputeWith (selectTests s g))
      (fun r t => Pending s t ∧ g.Keeps ∧ KeepsTests r.1)
      (fun failure t => Sound s t ∧ acceptable failure) := by
  let selected (tests : List Method) (t : FileTree) : Prop :=
    Pending s t ∧ g.Keeps ∧ KeepsTests tests
  refine Artifact.triple_loadOrComputeWith (fun tests _ => selected tests) ?_ ?_ ?_ ?_ ?_
  · rintro tests t ⟨h, hg⟩ hkept
    rcases h.sound.kept_unitTests with hnone | ⟨found, hfound, htests⟩
    · cases hkept.symm.trans hnone
    · cases hkept.symm.trans hfound
      exact ⟨h, hg, htests⟩
  · exact fun failure t h hkept => (h.1.sound.kept_unitTests_ne_error failure hkept).elim
  · refine ((reads_selectTests s g).triple _).mono (fun t h => h) ?_ ?_
    · rintro ⟨tests, unmatched⟩ t ⟨⟨⟨h, hg⟩, -⟩, htests⟩
      exact ⟨h, hg, hg.callers.sublist (sublist_callers_of_testsAt htests)⟩
    · rintro failure t ⟨⟨⟨h, -⟩, -⟩, htests⟩
      exact ⟨h.sound, hacceptable _ (not_isInvalidCache_of_testsAt htests)⟩
  · intro tests unmatched hstorable
    refine Artifact.triple_store ?_ ?_
    · rintro t u ⟨h, hg, htests⟩ hwritten
      -- an empty selection is not stored, and would not be read back
      have hne : tests ≠ [] := by
        rintro rfl
        cases hstorable
      exact ⟨h.unitTests_written hwritten hne htests, hg, htests⟩
    · rintro fault t u ⟨h, -⟩ hrefused
      exact ⟨h.sound.grows hrefused.grows, hacceptable _ id⟩
  · exact fun tests unmatched t _ h => h

theorem triple_compute_pending
    (hacceptable : ∀ failure : Failure, ¬ failure.IsInvalidCache → acceptable failure) :
    Triple World (fun t => Pending s t ∧ LogFits s t) (compute s)
      (fun r t => Pending s t ∧ Snapshot.Keeps r.1)
      (fun failure t => Sound s t ∧ acceptable failure) := by
  refine triple_compute (fun g selection t => Pending s t ∧ g.Keeps ∧ KeepsTests selection.1)
    (fun r t => Pending s t ∧ Snapshot.Keeps r.1) ?_ ?_ ?_
  · rintro failure t ⟨h, -⟩ hgraph
    exact ⟨h.sound, hacceptable _ (not_isInvalidCache_of_graphAt hgraph)⟩
  · intro g
    refine (triple_tests_pending hacceptable).mono ?_ (fun _ _ h => h) fun _ _ h => h
    rintro t ⟨⟨h, hlog⟩, hgraph⟩
    exact ⟨h, keeps_of_graphAt hlog hgraph⟩
  · rintro g selection t ⟨h, hg, htests⟩
    exact ⟨h, Traversal.keeps_index _ hg htests⟩

/-! ### Running and exporting -/

theorem triple_run_sound (hexporter : exporter.Reports s.reportPath acceptable)
    (hacceptable : ∀ failure : Failure, ¬ failure.IsInvalidCache → acceptable failure) :
    Triple World (fun t => Sound s t ∧ LogFits s t) (run s exporter) (fun _ => Sound s)
      (fun failure t => Sound s t ∧ acceptable failure) := by
  let exported (r : CallIndex × Details) (t : FileTree) : Prop :=
    Pending s t ∧ Snapshot.Keeps r.1 ∧ t.read s.reportPath = .ok (Report.encode r.1)
  refine triple_run (fun r t => Pending s t ∧ Snapshot.Keeps r.1) exported (fun _ => Sound s)
    ?_ ?_ ?_ ?_ ?_
  · exact fun index t h _ => h.1
  · exact fun failure t h hkept => (h.1.kept_snapshot_ne_error failure hkept).elim
  · -- a run that computes has found no snapshot, so until it stores one there is none
    refine (triple_compute_pending hacceptable).mono ?_ (fun _ _ h => h) fun _ _ h => h
    rintro t ⟨⟨h, hlog⟩, hkept⟩
    rcases h.kept_snapshot with ⟨-, habsent⟩ | ⟨_, found, -, -, hfound⟩
    · exact ⟨⟨h, habsent⟩, hlog⟩
    · cases hkept.symm.trans hfound
  · refine fun r => .of_forall fun t h => (hexporter r.1 t).mono (fun _ h => h) ?_ ?_
    · -- the report is there before the snapshot of the same index
      intro _ u hwritten
      exact ⟨h.1.report_written hwritten, h.2, hwritten.read⟩
    · rintro failure u ⟨hgrows, hfailure⟩
      exact ⟨h.1.sound.grows hgrows, hfailure⟩
  · rintro ⟨index, details⟩
    refine Artifact.triple_store ?_ ?_
    · rintro t u ⟨h, hindex, hreport⟩ hwritten
      exact h.sound.snapshot_written hwritten hindex hreport
    · rintro fault t u ⟨h, -⟩ hrefused
      exact ⟨h.sound.grows hrefused.grows, hacceptable _ id⟩

theorem triple_exportSnapshot_sound (hexporter : exporter.Reports s.reportPath acceptable)
    (hacceptable : ∀ failure : Failure, ¬ failure.IsInvalidCache → acceptable failure) :
    Triple World (Sound s) (exportSnapshot s exporter) (fun _ => Sound s)
      (fun failure t => Sound s t ∧ acceptable failure) := by
  refine triple_exportSnapshot ?_ ?_ ?_
  · exact fun t h _ => ⟨h, hacceptable _ id⟩
  · exact fun failure t h hkept => (h.kept_snapshot_ne_error failure hkept).elim
  · intro index
    refine .of_forall fun t ht => (hexporter index t).mono (fun _ h => h) ?_ ?_
    · intro _ u hwritten
      obtain ⟨h, hkept⟩ := ht
      rcases h.kept_snapshot with ⟨hnone, -⟩ | ⟨bytes, found, hread, hdecode, hfound⟩
      · cases hkept.symm.trans hnone
      · cases hkept.symm.trans hfound
        exact h.report_written hread hdecode hwritten
    · rintro failure u ⟨hgrows, hfailure⟩
      exact ⟨ht.1.grows hgrows, hfailure⟩

end Analysis

end CallDepth
