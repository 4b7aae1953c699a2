import CallDepth.Proofs.Analysis.Agreement

/-!
# Histories

Runs, refreshes and exports, one after the other and each with any outcome, while others change the
call log, the list of tests and the settings. However long this goes on, what is kept agrees: the
selection of the tests and the snapshot can be read, and the report is that of the snapshot.
-/

namespace CallDepth

open FileTree

/-- Whether an exporter fails at a path in any case, and leaves all files. -/
def Exporter.Refuses (exporter : Exporter (StateM World)) (path : String) : Prop :=
  ∀ (index : CallIndex) (w : World),
    (∃ failure, (w.run (exporter index path)).1 = .error failure) ∧
      (w.run (exporter index path)).2.files = w.files

theorem Exporter.Refuses.reports {exporter : Exporter (StateM World)} {path : String}
    {acceptable : Failure → Prop} (h : exporter.Refuses path)
    (hacceptable : ∀ (index : CallIndex) (w : World) (failure : Failure),
      (w.run (exporter index path)).1 = .error failure → acceptable failure) :
    exporter.Reports path acceptable := by
  refine fun index t => ⟨?_⟩
  rintro w rfl
  obtain ⟨⟨failure, hfailure⟩, hfiles⟩ := h index w
  have hfine := hacceptable index w failure hfailure
  unfold World.run at hfailure hfiles
  cases hrun : (exporter index path).run.run w with
  | mk result w' =>
    rw [hrun] at hfailure hfiles
    dsimp only at hfailure hfiles
    subst hfailure
    have hgrows : Grows w.files w'.files := hfiles ▸ .refl _
    exact ⟨hgrows, hfine⟩

namespace Analysis

/-! ### Operations -/

inductive Operation where
  | run (exporter : Exporter (StateM World))
  | refresh
  | exportSnapshot (exporter : Exporter (StateM World))

namespace Operation

def task (s : Settings) : Operation → Task (StateM World) Unit
  | run exporter => do
    let _ ← Analysis.run s exporter
    return ()
  | refresh => Analysis.refresh s
  | exportSnapshot exporter => do
    let _ ← Analysis.exportSnapshot s exporter
    return ()

def after (op : Operation) (s : Settings) (w : World) : World := (w.run (op.task s)).2

def exporter? : Operation → Option (Exporter (StateM World))
  | run exporter => some exporter
  | refresh => none
  | exportSnapshot exporter => some exporter

/-- Whether an operation writes reports or refuses to, on files of lengths that are words. -/
def Allowed (op : Operation) (s : Settings) (t : FileTree) : Prop :=
  (∀ exporter ∈ op.exporter?, exporter = Report.write ∨ exporter.Refuses s.reportPath) ∧
    LogFits s t

/-- Whether a failure is one of an operation's exporter, which is not that of reports. -/
def Relays (op : Operation) (s : Settings) (failure : Failure) : Prop :=
  ∃ exporter ∈ op.exporter?, exporter ≠ Report.write ∧
    ∃ (index : CallIndex) (w : World), (w.run (exporter index s.reportPath)).1 = .error failure

variable {op : Operation} {s : Settings}

theorem reports_exporter {exporter : Exporter (StateM World)} (hop : exporter ∈ op.exporter?)
    (h : exporter = Report.write ∨ exporter.Refuses s.reportPath) :
    exporter.Reports s.reportPath fun failure => failure.IsInvalidCache → op.Relays s failure := by
  by_cases hwrite : exporter = Report.write
  · rw [hwrite]
    exact Report.reports_write _ fun failure hfailure hcache => absurd hcache hfailure
  · exact (h.resolve_left hwrite).reports fun index w failure hfailure _ =>
      ⟨exporter, hop, hwrite, index, w, hfailure⟩

/-- Each operation keeps the files sound, whatever comes of it, and finds nothing invalid. -/
theorem triple_task
    (hop : ∀ exporter ∈ op.exporter?, exporter = Report.write ∨ exporter.Refuses s.reportPath) :
    Triple World (fun t => Sound s t ∧ LogFits s t) (op.task s) (fun _ => Sound s)
      (fun failure t => Sound s t ∧ (failure.IsInvalidCache → op.Relays s failure)) := by
  have hother : ∀ failure : Failure, ¬ failure.IsInvalidCache →
      failure.IsInvalidCache → op.Relays s failure :=
    fun failure h hcache => absurd hcache h
  cases op with
  | run exporter =>
    have hreports := reports_exporter (show exporter ∈ (run exporter).exporter? from rfl)
      (hop exporter rfl)
    exact (triple_run_sound hreports hother).bind fun _ => .pure fun _ h => h
  | refresh => exact triple_refresh.mono (fun t h => h.1) (fun _ _ h => h) fun _ _ h => h.elim
  | exportSnapshot exporter =>
    have hreports := reports_exporter (show exporter ∈ (exportSnapshot exporter).exporter? from rfl)
      (hop exporter rfl)
    have hexport := (triple_exportSnapshot_sound hreports hother).mono
      (fun t (h : Sound s t ∧ LogFits s t) => h.1) (fun _ _ h => h) fun _ _ h => h
    exact hexport.bind fun _ => .pure fun _ h => h

end Operation

/-! ### Histories -/

/-- The settings and the world after a finite sequence of operations and of changes from outside,
starting where nothing is kept. A change leaves what is kept, and the names of that. -/
inductive History : Settings → World → Prop where
  | start {s : Settings} {w : World} (hs : s.NamesApart w.files.workingDirectory)
      (habsent : ∀ path ∈ s.artifactPaths, w.files.contents? path = none) : History s w
  | operate {s : Settings} {w : World} (h : History s w) (op : Operation)
      (hop : op.Allowed s w.files) : History s (op.after s w)
  | change {s s' : Settings} {w w' : World} (h : History s w)
      (hpaths : s'.artifactPaths = s.artifactPaths)
      (hs : s'.NamesApart w'.files.workingDirectory)
      (hleaves : Leaves s.artifactPaths w.files w'.files) : History s' w'

theorem History.sound {s : Settings} {w : World} (h : History s w) : Sound s w.files := by
  induction h with
  | @start s w hs habsent =>
    refine ⟨hs, fun bytes hbytes => ?_, fun bytes hbytes => ?_⟩
    · cases (habsent _ s.unitTestPath_mem).symm.trans hbytes
    · cases (habsent _ s.snapshotPath_mem).symm.trans hbytes
  | operate _ op hop ih =>
    exact ((Operation.triple_task hop.1).mono (fun _ h => h) (fun _ _ h => h)
      fun _ _ h => h.1).files ⟨ih, hop.2⟩
  | change _ hpaths hs hleaves ih => exact ih.change hleaves hpaths hs

/-- In each state of a history, a selection of tests that is there can be read and holds some, and a
snapshot that is there can be read and its report is there. So no operation ever finds an artifact
invalid; where one fails in this way, that is its exporter's own failure. -/
theorem history_agrees {s : Settings} {w : World} (h : History s w) :
    (∀ bytes, w.files.contents? s.unitTestPath = some bytes →
      ∃ tests, MethodList.decode bytes = .ok tests ∧ tests ≠ []) ∧
    (∀ bytes, w.files.contents? s.snapshotPath = some bytes →
      ∃ index, Snapshot.decode bytes = .ok index ∧
        w.files.read s.reportPath = .ok (Report.encode index)) ∧
    ∀ op : Operation, op.Allowed s w.files → ∀ path reason,
      (w.run (op.task s)).1 = .error (.invalidCache path reason) →
        op.Relays s (.invalidCache path reason) := by
  have hsound := h.sound
  refine ⟨fun bytes hbytes => ?_, fun bytes hbytes => (hsound.snapshot bytes hbytes).2, ?_⟩
  · obtain ⟨tests, hdecode, -⟩ := hsound.unitTests bytes hbytes
    exact ⟨tests, hdecode, (MethodList.decode_eq_ok_iff.mp hdecode).1⟩
  · intro op hop path reason hresult
    exact ((Operation.triple_task hop.1).of_error ⟨hsound, hop.2⟩ hresult).2 trivial

/-! ### An example -/

/-- The world after others have written a file, if they can. -/
def writing (path : String) (bytes : Bytes) (w : World) : World :=
  { w with files := (w.files.write path bytes).2 }

theorem History.write_log {s : Settings} {w : World} {log : Bytes} (h : History s w)
    (hwrite : (w.files.write s.callLog log).1 = .ok ()) :
    History s (writing s.callLog log w) ∧
      Leaves s.artifactPaths w.files (writing s.callLog log w).files ∧
      (writing s.callLog log w).files.read s.callLog = .ok log := by
  have hwritten : Written s.callLog log w.files (writing s.callLog log w).files :=
    written_of_write (Prod.ext hwrite rfl)
  have happart := h.sound.apart
  have hleaves : Leaves s.artifactPaths w.files (writing s.callLog log w).files :=
    hwritten.leaves fun path hpath => (happart.sources (List.mem_cons_self ..) hpath).symm
  refine ⟨h.change rfl ?_ hleaves, hleaves, hwritten.read⟩
  rw [hleaves.workingDirectory_eq]
  exact happart

theorem files_of_refused_export {s : Settings} {exporter : Exporter (StateM World)}
    (h : exporter.Refuses s.reportPath) (w : World) :
    (Operation.after (.exportSnapshot exporter) s w).files = w.files := by
  have hexport : Triple World (· = w.files) (exportSnapshot s exporter) (fun _ => (· = w.files))
      (fun _ => (· = w.files)) := by
    refine triple_exportSnapshot (fun _ h _ => h) (fun _ _ h _ => h) fun index => ?_
    exact .of_files fun v hv => (h index v).2.trans hv.1
  exact (hexport.bind fun _ => .pure fun _ h => h).files rfl

/-- A log with two calls of a test. -/
def twoCalls : Bytes := Text.Utf8.ofString "M:Test:test()->Test:b()\nM:Test:test()->Test:c()\n"

theorem length_twoCalls_lt : twoCalls.length < wordCount := by decide +kernel

theorem read_twoCalls : (withLog twoCalls).read Settings.standard.callLog = .ok twoCalls := by
  decide +kernel

/-- What a run makes of a log with two calls. -/
def ranOnce : World :=
  Operation.after (.run Report.write) .standard (World.ofFiles (withLog twoCalls))

theorem ranOnce_stores : (ranOnce.files.write Settings.standard.callLog broken).1 = .ok () ∧
    ranOnce.files.isFile Settings.standard.snapshotPath = true := by
  decide +kernel

theorem length_broken_lt : broken.length < wordCount := by decide +kernel

def refusing : Exporter (StateM World) := fun _ _ => throw (.io .notDirectory)

/-- After a run, the log is replaced by a broken one, and an export fails. -/
theorem history_agrees_after_run :
    let s := Settings.standard
    let v := writing s.callLog broken ranOnce
    let w := Operation.after (.exportSnapshot refusing) s v
    History s w ∧ w.files.isFile s.snapshotPath = true ∧
      ∃ index, w.files.read s.reportPath = .ok (Report.encode index) := by
  intro s v w
  -- the world is kept as a name: the run that made it need not be evaluated again
  have hw : w = Operation.after (.exportSnapshot refusing) s v := rfl
  clear_value w
  have hran : History s ranOnce := by
    have hstart : History s (World.ofFiles (withLog twoCalls)) :=
      .start namesApart_standard (by decide +kernel)
    refine hstart.operate (.run Report.write) ⟨?_, ?_⟩
    · intro exporter hexporter
      exact Or.inl (Option.some.inj hexporter).symm
    · intro log hlog
      rw [Except.ok.inj (hlog.symm.trans read_twoCalls)]
      exact length_twoCalls_lt
  obtain ⟨hwrite, hfile⟩ := ranOnce_stores
  obtain ⟨hchanged, hleaves, hlog⟩ := hran.write_log hwrite
  have hrefuses : refusing.Refuses s.reportPath := fun _ _ => ⟨⟨_, rfl⟩, rfl⟩
  have hexported : History s w := by
    rw [hw]
    refine hchanged.operate (.exportSnapshot refusing) ⟨?_, ?_⟩
    · intro exporter hexporter
      cases Option.some.inj hexporter
      exact Or.inr hrefuses
    · intro log hlog'
      rw [Except.ok.inj (hlog'.symm.trans hlog)]
      exact length_broken_lt
  have hsame : w.files = v.files := by
    rw [hw]
    exact files_of_refused_export hrefuses v
  obtain ⟨bytes, hbytes⟩ := isFile_iff.mp hfile
  have hread : w.files.read s.snapshotPath = .ok bytes := by
    rw [hsame]
    exact hleaves.read _ s.snapshotPath_mem bytes hbytes
  obtain ⟨index, -, hreport⟩ := (history_agrees hexported).2.1 bytes (contents?_of_read hread)
  exact ⟨hexported, isFile_iff.mpr ⟨bytes, hread⟩, index, hreport⟩

end Analysis

end CallDepth
