import CallDepth.Proofs.Analysis.Reuse
import CallDepth.Proofs.Files.Saving

/-!
# Exporting again

A run that computes its index writes a report of it and keeps it as a snapshot. What is exported
from the snapshot later is the same report, byte for byte, whatever has become of the first one;
without a snapshot that can be read nothing is exported.
-/

namespace CallDepth

open FileTree

namespace Analysis

variable {s : Settings} {exporter : Exporter (StateM World)} {t : FileTree} {w v : World}
  {index : CallIndex}

/-! ### What a run writes -/

theorem Stored.workingDirectory_eq {selection : List Method × Option Nat} {u : FileTree}
    (h : Stored s t selection u) : u.workingDirectory = t.workingDirectory := by
  cases h with
  | kept tests => rfl
  | none unmatched => rfl
  | written hne h => exact h.keeps.workingDirectory_eq

/-- A run that computes its index leaves a report of it, unless the snapshot takes its place. -/
theorem triple_run_leaves_report
    (hapart : Path.place t.workingDirectory s.reportPath ≠
      Path.place t.workingDirectory s.snapshotPath) :
    Triple World (· = t) (run s Report.write)
      (fun r u => r.2.snapshot = .computed → u.read s.reportPath = .ok (Report.encode r.1))
      (fun _ _ => True) := by
  refine triple_run (fun _ u => u.workingDirectory = t.workingDirectory)
    (fun r u => u.workingDirectory = t.workingDirectory ∧
      u.read s.reportPath = .ok (Report.encode r.1)) _ ?_ ?_ ?_ ?_ ?_
  · rintro index u - - ⟨⟩
  · exact fun _ _ _ _ => trivial
  · refine (triple_compute_at s t).mono (fun u h => h.1) ?_ fun _ _ _ => trivial
    rintro r u ⟨g, selection, -, -, -, hstored⟩
    exact hstored.workingDirectory_eq
  · intro r
    refine Report.triple_write ?_ fun _ _ _ _ _ => trivial
    intro u v hu hwritten
    exact ⟨hwritten.keeps.workingDirectory_eq.trans hu, hwritten.read⟩
  · intro r
    refine Artifact.triple_store ?_ fun _ _ _ _ _ => trivial
    rintro u v ⟨hdir, hread⟩ hwritten -
    -- the snapshot is written last, and elsewhere
    refine hwritten.stays.read hwritten.keeps ?_ hread
    rw [hdir]
    exact hapart

/-! ### What an export writes -/

/-- An export uses its exporter on the index that is kept, from the files that it finds. -/
theorem run_exportSnapshot (s : Settings) (exporter : Exporter (StateM World)) (w : World) :
    ∃ start : World, start.files = w.files ∧
      w.run (exportSnapshot s exporter) =
        match (snapshot s).kept w.files with
        | .error failure => (.error failure, start)
        | .ok none => (.error (.missingArtifact s.snapshotPath), start)
        | .ok (some index) => start.run (do exporter index s.reportPath; return index) := by
  obtain ⟨hresult, hfiles⟩ := (snapshot s).reads_load.run_world w
  refine ⟨_, hfiles, ?_⟩
  rw [exportSnapshot, World.run_bind, ← hresult]
  cases w.run (snapshot s).load with
  | mk found start =>
    cases found with
    | error failure => rfl
    | ok found => cases found <;> rfl

theorem run_exportSnapshot_of_kept (h : (snapshot s).kept v.files = .ok (some index)) :
    ∃ events, v.run (exportSnapshot s Report.write) =
      (((v.files.save s.reportPath (Report.encode index)).1.mapError Failure.io).map fun _ => index,
        ⟨(v.files.save s.reportPath (Report.encode index)).2, events⟩) := by
  obtain ⟨start, hfiles, hrun⟩ := run_exportSnapshot s Report.write v
  obtain ⟨events, hwrite⟩ := start.run_save s.reportPath (Report.encode index) .info
    "call entries exported" [("path", s.reportPath), ("tests", toString index.size)]
  rw [hrun, h, ← hfiles]
  dsimp only
  rw [World.run_bind, Report.write, hwrite]
  cases (start.files.save s.reportPath (Report.encode index)).1 with
  | ok => exact ⟨events, rfl⟩
  | error fault => exact ⟨events, rfl⟩

/-- An export of a kept index gives that index and writes its report, or fails. -/
theorem triple_exportSnapshot_of_kept (h : (snapshot s).kept t = .ok (some index)) :
    Triple World (· = t) (exportSnapshot s Report.write)
      (fun found u => found = index ∧ Written s.reportPath (Report.encode index) t u)
      (fun _ _ => True) := by
  refine triple_exportSnapshot (fun _ _ _ => trivial) (fun _ _ _ _ => trivial) fun found => ?_
  refine Report.triple_write ?_ fun _ _ _ _ _ => trivial
  rintro u v ⟨rfl, hfound⟩ hwritten
  obtain rfl : index = found := by
    rw [h] at hfound
    exact Option.some.inj (Except.ok.inj hfound)
  exact ⟨rfl, hwritten⟩

/-- After a run that computed its index, an export gives that index again, and leaves the report
that the run left and all other files, whatever was done to the files but the snapshot. It succeeds
where the report can be written. Without a snapshot, or with one that cannot be read, an export
fails and leaves all files. -/
theorem export_rewrites_report (s : Settings) :
    (∀ (w v : World) (r : CallIndex × Summary), InputsFit s w.files →
      Path.place w.files.workingDirectory s.reportPath ≠
        Path.place w.files.workingDirectory s.snapshotPath →
      let p := w.run (run s Report.write)
      let q := v.run (exportSnapshot s Report.write)
      p.1 = .ok r → r.2.snapshot = .computed →
      v.files.read s.snapshotPath = p.2.files.read s.snapshotPath →
      (∀ index, q.1 = .ok index → index = r.1 ∧
        p.2.files.read s.reportPath = .ok (Report.encode r.1) ∧
        q.2.files.read s.reportPath = p.2.files.read s.reportPath ∧
        Keeps (· ≠ Path.place v.files.workingDirectory s.reportPath) v.files q.2.files) ∧
      ((v.files.save s.reportPath (Report.encode r.1)).1 = .ok () → q.1 = .ok r.1)) ∧
    ∀ (exporter : Exporter (StateM World)) (v : World),
      let q := v.run (exportSnapshot s exporter)
      (v.files.isFile s.snapshotPath = false →
        q.1 = .error (.missingArtifact s.snapshotPath) ∧ q.2.files = v.files) ∧
      ∀ bytes reason, v.files.read s.snapshotPath = .ok bytes →
        Snapshot.codec.decode bytes = .error reason →
        q.1 = .error (.invalidCache s.snapshotPath reason) ∧ q.2.files = v.files := by
  constructor
  · intro w v r hfit hapart p q hrun hcomputed hsnapshot
    have hkept : (snapshot s).kept v.files = .ok (some r.1) := by
      obtain ⟨bytes, hread, hdecode⟩ :=
        kept_snapshot_iff.mp ((triple_run_keeps_index hfit).of_ok rfl hrun).1
      exact kept_snapshot_iff.mpr ⟨bytes, hsnapshot.trans hread, hdecode⟩
    have hreport : p.2.files.read s.reportPath = .ok (Report.encode r.1) :=
      (triple_run_leaves_report hapart).of_ok rfl hrun hcomputed
    constructor
    · intro index hq
      obtain ⟨hindex, hwritten⟩ := (triple_exportSnapshot_of_kept hkept).of_ok rfl hq
      exact ⟨hindex, hreport, hwritten.read.trans hreport.symm, hwritten.keeps⟩
    · intro hsave
      obtain ⟨events, hq⟩ := run_exportSnapshot_of_kept hkept
      rw [hsave] at hq
      exact congrArg Prod.fst hq
  · intro exporter v q
    obtain ⟨start, hfiles, hq⟩ := run_exportSnapshot s exporter v
    constructor
    · intro habsent
      have hkept : (snapshot s).kept v.files = .ok none := readOr_of_isFile habsent
      rw [hkept] at hq
      exact ⟨congrArg Prod.fst hq, (congrArg (·.2.files) hq).trans hfiles⟩
    · intro bytes reason hread hdecode
      have hkept : (snapshot s).kept v.files = .error (.invalidCache s.snapshotPath reason) :=
        (readOr_of_read hread).trans (Artifact.held_of_decode_error hdecode)
      rw [hkept] at hq
      exact ⟨congrArg Prod.fst hq, (congrArg (·.2.files) hq).trans hfiles⟩

/-! ### An example -/

instance (s : Settings) (t : FileTree) : Decidable (InputsFit s t) :=
  decidable_of_iff (∀ path ∈ [s.callLog, s.unitTestPath], ∀ bytes ∈ (t.read path).toOption,
    bytes.length < wordCount) (by simp only [InputsFit, mem_toOption_iff])

theorem run_twoCalls_leaves_report :
    let p := (World.ofFiles (withLog twoCalls)).run (run .standard Report.write)
    let t := (p.2.files.remove Settings.standard.reportPath).2
    (p.1.toOption.map fun r => r.2.snapshot) = some .computed ∧
      p.2.files.isFile Settings.standard.reportPath = true ∧
      p.2.files.isFile Settings.standard.snapshotPath = true ∧
      p.2.files.workingDirectory = ["work"] ∧ t.isFile Settings.standard.reportPath = false ∧
      (t.save Settings.standard.reportPath []).1 = .ok () := by
  decide +kernel

/-- After a run, the report is removed and then exported from the snapshot. -/
theorem export_rewrites_removed_report :
    let w := World.ofFiles (withLog twoCalls)
    let p := w.run (run .standard Report.write)
    let v : World := { p.2 with files := (p.2.files.remove Settings.standard.reportPath).2 }
    let q := v.run (exportSnapshot .standard Report.write)
    v.files.isFile Settings.standard.reportPath = false ∧
    ∃ r, p.1 = .ok r ∧ r.2.snapshot = .computed ∧ q.1 = .ok r.1 ∧
      q.2.files.read Settings.standard.reportPath = p.2.files.read Settings.standard.reportPath := by
  intro w p v q
  obtain ⟨hcomputed, hreport, hsnapshot, hdir, habsent, hsave⟩ :
      (p.1.toOption.map fun r => r.2.snapshot) = some .computed ∧
      p.2.files.isFile Settings.standard.reportPath = true ∧
      p.2.files.isFile Settings.standard.snapshotPath = true ∧
      p.2.files.workingDirectory = ["work"] ∧
      v.files.isFile Settings.standard.reportPath = false ∧
      (v.files.save Settings.standard.reportPath []).1 = .ok () := run_twoCalls_leaves_report
  have hp : w.run (run .standard Report.write) = p := rfl
  clear_value p
  have hapart : Path.place w.files.workingDirectory Settings.standard.reportPath ≠
      Path.place w.files.workingDirectory Settings.standard.snapshotPath := by decide +kernel
  have hkept : v.files.read Settings.standard.snapshotPath =
      p.2.files.read Settings.standard.snapshotPath := by
    obtain ⟨bytes, hread⟩ := isFile_iff.mp hsnapshot
    obtain ⟨report, hfile⟩ := isFile_iff.mp hreport
    change (p.2.files.remove Settings.standard.reportPath).2.read _ = _
    rw [remove_of_isFile hreport, hread]
    refine read_erase (contents?_of_read hfile) ?_ hread
    rw [hdir]
    exact hapart.symm
  obtain ⟨r, hr, hcomputed⟩ := Option.map_eq_some_iff.mp hcomputed
  have hrun : p.1 = .ok r := mem_toOption_iff.mp hr
  have hfit : InputsFit .standard w.files := by decide +kernel
  rw [← hp] at hrun hkept
  obtain ⟨hexport, hsucceeds⟩ :=
    (export_rewrites_report .standard).1 w v r hfit hapart hrun hcomputed hkept
  have hq := hsucceeds ((FileTree.fst_save_eq ..).trans hsave)
  obtain ⟨-, -, hsame, -⟩ := hexport r.1 hq
  rw [hp] at hrun hsame
  exact ⟨habsent, r, hrun, hcomputed, hq, hsame⟩

end Analysis

end CallDepth
