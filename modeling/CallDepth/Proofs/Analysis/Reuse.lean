import CallDepth.Proofs.Analysis.History
import CallDepth.Proofs.Store.Size

/-!
# Reusing a snapshot

A run that succeeds leaves a snapshot of the index that it gives. As long as that file can be read,
every later run gives the same index, whatever else has become of the files and of the settings.
-/

namespace CallDepth

open FileTree

namespace Analysis

variable {s : Settings} {exporter : Exporter (StateM World)} {t : FileTree} {w v : World}
  {index : CallIndex}

/-! ### What is computed can be kept -/

/-- Whether the lengths of the files that an index is computed from are words, as those of any files
are. -/
def InputsFit (s : Settings) (t : FileTree) : Prop :=
  ∀ path ∈ [s.callLog, s.unitTestPath], ∀ bytes, t.read path = .ok bytes →
    bytes.length < wordCount

theorem keepsTests_of_selectionAt {g : CallGraph} {selection : List Method × Option Nat}
    (hfit : InputsFit s t) (hg : g.Keeps) (h : selectionAt s g t = .ok selection) :
    KeepsTests selection.1 := by
  rcases selectionAt_cases h with ⟨hkept, -⟩ | ⟨unmatched, -, htests, -⟩
  · obtain ⟨bytes, hread, hdecode⟩ := kept_unitTests_iff.mp hkept
    exact MethodList.keepsTests_of_decode hdecode (hfit _ (by simp) bytes hread)
  · exact hg.callers.sublist (sublist_callers_of_testsAt htests)

theorem keeps_of_computedAt {r : CallIndex × Details} (hfit : InputsFit s t)
    (h : computedAt s t = .ok r) : Snapshot.Keeps r.1 := by
  obtain ⟨g, selection, hgraph, hselection, rfl⟩ := computedAt_eq_ok_iff.mp h
  have hlog : LogFits s t := hfit s.callLog (by simp)
  have hg := keeps_of_graphAt hlog hgraph
  exact Traversal.keeps_index _ hg (keepsTests_of_selectionAt hfit hg hselection)

/-- A run that succeeds leaves the index that it gives as a snapshot, whatever its exporter does and
whether or not the files that are kept are different ones. -/
theorem triple_run_keeps_index (hfit : InputsFit s t) :
    Triple World (· = t) (run s exporter)
      (fun r u => (snapshot s).kept u = .ok (some r.1) ∧ ∃ computed, r.2 = .ofIndex r.1 computed)
      (fun _ _ => True) := by
  refine triple_run (fun r _ => Snapshot.Keeps r.1) (fun r _ => Snapshot.Keeps r.1) _ ?_ ?_ ?_ ?_ ?_
  · rintro index u - hkept
    exact ⟨hkept, none, rfl⟩
  · exact fun _ _ _ _ => trivial
  · refine (triple_compute_at s t).mono (fun u h => h.1) ?_ fun _ _ _ => trivial
    rintro r u ⟨g, selection, hgraph, hselection, hr, -⟩
    exact keeps_of_computedAt hfit (computedAt_eq_ok_iff.mpr ⟨g, selection, hgraph, hselection, hr⟩)
  · intro r
    refine (Triple.of_files fun w hw => ?_).mono (fun _ h => h) (fun _ _ h => h) fun _ _ _ => trivial
    exact hw
  · intro r
    refine Artifact.triple_store ?_ fun _ _ _ _ _ => trivial
    intro u v hkeeps hwritten
    have hkept : (snapshot s).kept v = .ok (some r.1) :=
      kept_snapshot_iff.mpr ⟨_, hwritten.read, Snapshot.decode_encode hkeeps⟩
    exact ⟨hkept, some r.2, rfl⟩

/-! ### Runs that find a snapshot -/

/-- A run that finds a snapshot does no more than load it. -/
theorem run_of_kept (h : (snapshot s).kept w.files = .ok (some index)) :
    w.run (run s exporter) =
      (.ok (index, .ofIndex index none), (w.run (snapshot s).load).2) := by
  obtain ⟨hresult, -⟩ := (snapshot s).reads_load.run_world w
  rw [run, World.run_bind, Artifact.loadOrComputeWith, World.run_bind]
  cases hload : w.run (snapshot s).load with
  | mk found w' =>
    rw [hload, h] at hresult
    dsimp only at hresult
    rw [hresult]
    rfl

theorem files_of_kept (h : (snapshot s).kept w.files = .ok (some index)) :
    (w.run (run s exporter)).2.files = w.files := by
  rw [run_of_kept h]
  exact ((snapshot s).reads_load.run_world w).2

/-! ### Later runs -/

/-- The worlds that can come after one while others leave the file at a path: they change the other
files, and runs take place with any settings that keep the snapshot there. -/
inductive Later (path : String) (w : World) : World → Prop where
  | now : Later path w w
  | change {v v' : World} (h : Later path w v) (hread : ∀ bytes, v.files.read path = .ok bytes →
      v'.files.read path = .ok bytes) : Later path w v'
  | rerun {v : World} (h : Later path w v) (s : Settings) (hpath : s.snapshotPath = path)
      (exporter : Exporter (StateM World)) : Later path w (v.run (run s exporter)).2

theorem kept_of_snapshotPath_eq {s' : Settings} (hpath : s'.snapshotPath = s.snapshotPath) :
    (snapshot s').kept t = (snapshot s).kept t := by
  rw [snapshot, snapshot, hpath]

theorem Later.kept (hlater : Later s.snapshotPath w v)
    (h : (snapshot s).kept w.files = .ok (some index)) :
    (snapshot s).kept v.files = .ok (some index) := by
  induction hlater with
  | now => exact h
  | change _ hread ih =>
    obtain ⟨bytes, hbytes, hdecode⟩ := kept_snapshot_iff.mp ih
    exact kept_snapshot_iff.mpr ⟨bytes, hread bytes hbytes, hdecode⟩
  | rerun _ s' hpath exporter ih =>
    rw [files_of_kept ((kept_of_snapshotPath_eq hpath).trans ih)]
    exact ih

/-- After a run that succeeds, all further ones give its index again as a hit, with the same numbers
and no details of a computation. They leave all files and never use their exporter: with any other one
they are the same. This is so whatever happens between them to all files but the snapshot, whatever
the settings are then, and even if the settings give several files the same path. -/
theorem later_runs_hit (s s' : Settings) (exporter exporter' : Exporter (StateM World))
    (w v : World) (r : CallIndex × Summary) (hfit : InputsFit s w.files)
    (hrun : (w.run (run s exporter)).1 = .ok r)
    (hlater : Later s.snapshotPath (w.run (run s exporter)).2 v)
    (hpath : s'.snapshotPath = s.snapshotPath) :
    let p := v.run (run s' exporter')
    let summary : Summary := { r.2 with computed := none }
    p.1 = .ok (r.1, summary) ∧ summary.snapshot = .hit ∧ p.2.files = v.files ∧
      ∀ other : Exporter (StateM World), v.run (run s' other) = p := by
  intro p summary
  obtain ⟨hkept, computed, hsummary⟩ := (triple_run_keeps_index hfit).of_ok rfl hrun
  have hkept' : (snapshot s').kept v.files = .ok (some r.1) :=
    (kept_of_snapshotPath_eq hpath).trans (hlater.kept hkept)
  have hp : p = (.ok (r.1, .ofIndex r.1 none), (v.run (snapshot s').load).2) := run_of_kept hkept'
  have hnumbers : summary = .ofIndex r.1 none := by
    change ({ r.2 with computed := none } : Summary) = _
    rw [hsummary]
    rfl
  refine ⟨?_, rfl, files_of_kept hkept', fun other => ?_⟩
  · rw [hp, hnumbers]
  · rw [hp]
    exact run_of_kept hkept'

/-- Settings that have nothing in common with the standard ones but where the snapshot is. -/
def elsewhere : Settings where
  callLog := "nothing.log"
  workDir := "logs"
  unitTestCache := "nothing.json"
  entrySnapshot := "call_entries.bin"
  entryJson := "nothing.json"
  testList := some "nothing.json"
  naming := ⟨"", ""⟩
  projectScope := some "X"
  strategy := .shortestDepth

theorem run_twoCalls_leaves_log :
    let p := (World.ofFiles (withLog twoCalls)).run (run .standard Report.write)
    p.1.isOk = true ∧ p.2.files.isFile Settings.standard.callLog = true ∧
      p.2.files.workingDirectory = ["work"] := by
  decide +kernel

/-- After a run, the log is removed, and runs with other settings and an exporter that fails follow. -/
theorem later_runs_hit_without_log :
    let w := World.ofFiles (withLog twoCalls)
    let p := w.run (run .standard Report.write)
    let cleared : World := { p.2 with files := (p.2.files.remove Settings.standard.callLog).2 }
    let v := (cleared.run (run elsewhere refusing)).2
    ∃ r summary, p.1 = .ok r ∧ Later Settings.standard.snapshotPath p.2 v ∧
      (v.run (run elsewhere refusing)).1 = .ok (r.1, summary) ∧ summary.snapshot = .hit := by
  intro w p cleared v
  have hfit : InputsFit .standard w.files := by
    intro path hpath bytes hread
    rcases List.mem_cons.mp hpath with rfl | hpath
    · rw [Except.ok.inj (hread.symm.trans read_twoCalls)]
      exact length_twoCalls_lt
    · obtain rfl := List.mem_singleton.mp hpath
      have hnone : w.files.read Settings.standard.unitTestPath = .error .notFound := by
        decide +kernel
      cases hnone.symm.trans hread
  -- the run is kept as a name: what it comes to need not be evaluated again
  obtain ⟨hok, hfile, hdir⟩ : p.1.isOk = true ∧
      p.2.files.isFile Settings.standard.callLog = true ∧
      p.2.files.workingDirectory = ["work"] := run_twoCalls_leaves_log
  have hp : w.run (run .standard Report.write) = p := rfl
  clear_value p
  have hcleared : Later Settings.standard.snapshotPath p.2 cleared := by
    refine .change .now fun bytes hread => ?_
    obtain ⟨log, hlog⟩ := isFile_iff.mp hfile
    have hne : Path.place p.2.files.workingDirectory Settings.standard.snapshotPath ≠
        Path.place p.2.files.workingDirectory Settings.standard.callLog := by
      rw [hdir]
      decide +kernel
    change (p.2.files.remove Settings.standard.callLog).2.read _ = _
    rw [remove_of_isFile hfile]
    exact read_erase (contents?_of_read hlog) hne hread
  have hpath : elsewhere.snapshotPath = Settings.standard.snapshotPath := by decide +kernel
  have hlater : Later Settings.standard.snapshotPath p.2 v := hcleared.rerun elsewhere hpath refusing
  obtain ⟨r, hr⟩ := isOk_iff.mp hok
  have hrun : (w.run (run .standard Report.write)).1 = .ok r := by rw [hp, hr]
  have hhit := later_runs_hit .standard elsewhere Report.write refusing w v r hfit hrun
    (hp.symm ▸ hlater) hpath
  exact ⟨r, _, hr, hlater, hhit.1, hhit.2.1⟩

end Analysis

end CallDepth
