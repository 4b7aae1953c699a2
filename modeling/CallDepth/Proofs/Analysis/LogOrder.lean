import CallDepth.Proofs.Analysis.Twin

/-!
# The order of the call log

What an analysis comes to depends on the calls that its log records, and on nothing else in the log.
-/

namespace CallDepth

open FileTree

/-- Whether the file is the call log of the settings, and no other file that they name. -/
structure Settings.VaryOnlyLog (s : Settings) (x : Variation) : Prop where
  callLog_at : Path.place x.workingDirectory s.callLog = x.location
  unitTests_avoid : x.Avoids s.unitTestPath
  snapshot_avoids : x.Avoids s.snapshotPath
  report_avoids : x.Avoids s.reportPath
  testList_avoids : ∀ path, s.testList = some path → x.Avoids path

namespace Analysis

variable {s : Settings} {x : Variation} {t u : FileTree}

theorem read_eq_of_relates (h : x.Relates t u) (hs : s.VaryOnlyLog x) :
    ∀ path ∈ [s.unitTestPath, s.reportPath, s.snapshotPath], t.read path = u.read path := by
  intro path hpath
  simp only [List.mem_cons, List.not_mem_nil, or_false] at hpath
  rcases hpath with rfl | rfl | rfl
  · exact h.read_eq hs.unitTests_avoid
  · exact h.read_eq hs.report_avoids
  · exact h.read_eq hs.snapshot_avoids

theorem unhindered_relates (hs : s.VaryOnlyLog x) : Unhindered s x.Relates x.Relates where
  read_unitTests _ _ h := h.read_eq hs.unitTests_avoid
  read_snapshot _ _ h := h.read_eq hs.snapshot_avoids
  store_unitTests _ := Twin.save_related hs.unitTests_avoid
  write_report _ := Twin.save_related hs.report_avoids
  store_snapshot _ := Twin.save_related hs.snapshot_avoids

/-- Logs that record the same calls are read into the same graph. -/
theorem graphAt_eq_of_sameCalls (h : x.Relates t u) {path : String}
    (hpath : Path.place x.workingDirectory path = x.location)
    (hleft : (CallLog.read x.left).isOk = true) (hright : (CallLog.read x.right).isOk = true)
    (hcalls : CallLog.SameCalls x.left x.right) : graphAt path t = graphAt path u := by
  rcases h.read_file hpath with ⟨fault, ht, hu⟩ | ⟨ht, hu⟩
  · exact graphAt_congr (ht.trans hu.symm)
  · obtain ⟨r, hr⟩ := isOk_iff.mp hleft
    obtain ⟨q, hq⟩ := isOk_iff.mp hright
    rw [graphAt_of_read ht, graphAt_of_read hu, CallLog.graph, CallLog.graph, hr, hq]
    exact congrArg Except.ok (CallLog.graph_eq_of_sameCalls hr hq hcalls)

theorem testsAt_eq_of_relates (h : x.Relates t u) (hs : s.VaryOnlyLog x) (g : CallGraph) :
    testsAt s g t = testsAt s g u := by
  refine testsAt_congr fun path hpath bytes => ?_
  rw [h.read_eq (hs.testList_avoids path hpath)]

/-- Two runs on trees that differ only in the call log, whose two contents can both be read and
record the same calls, fail in the same way or give the same index and the same summary. Either way
the files that they keep are the same, and the trees still differ in the log only. It does not
matter whether there was a snapshot before. -/
theorem run_eq_of_sameCalls (s : Settings) (x : Variation) (w v : World) (hs : s.VaryOnlyLog x)
    (h : x.Relates w.files v.files) (hleft : (CallLog.read x.left).isOk = true)
    (hright : (CallLog.read x.right).isOk = true) (hcalls : CallLog.SameCalls x.left x.right) :
    let p := w.run (run s Report.write)
    let q := v.run (run s Report.write)
    p.1 = q.1 ∧
    (∀ path ∈ [s.unitTestPath, s.reportPath, s.snapshotPath],
      p.2.files.read path = q.2.files.read path) ∧
    x.Relates p.2.files q.2.files := by
  intro p q
  have hgraph := graphAt_eq_of_sameCalls h hs.callLog_at hleft hright hcalls
  have hrun : EndAlike (fun r r' t u => r = r' ∧ x.Relates t u) x.Relates p q :=
    endAlike_run (unhindered_relates hs) h (fun _ _ => h) hgraph fun g _ =>
      testsAt_eq_of_relates h hs g
  generalize p = p at hrun
  generalize q = q at hrun
  cases hrun with
  | ok h' =>
    obtain ⟨rfl, h'⟩ := h'
    exact ⟨rfl, read_eq_of_relates h' hs, h'⟩
  | error failure h' => exact ⟨rfl, read_eq_of_relates h' hs, h'⟩

/-- Two calls of a test, in either order, with either separator, and with other lines about them. -/
def shuffled : Variation where
  workingDirectory := ["work"]
  location := ["work", "logs", "test_source_call.log"]
  left := Text.Utf8.ofString "M:Test:test()->Test:b()\nM:Test:test() (S)Test:c()\n"
  right := Text.Utf8.ofString
    "#\r\nM:Test:test() (I)Test:c()\r\nM:Test:test() (M)Test:b()\r\nM:Test:test()->Test:c()"

def logged (log : Bytes) : FileTree :=
  FileTree.put ⟨[(["work", "logs"], .directory)], ["work"]⟩ shuffled.location (.file log)

theorem run_shuffled :
    let w := World.ofFiles (logged shuffled.left)
    let v := World.ofFiles (logged shuffled.right)
    Settings.standard.VaryOnlyLog shuffled ∧
    shuffled.Relates w.files v.files ∧
    CallLog.SameCalls shuffled.left shuffled.right ∧
    (w.run (run .standard Report.write)).1.isOk = true ∧
    (w.run (run .standard Report.write)).1 = (v.run (run .standard Report.write)).1 := by
  intro w v
  have hs : Settings.standard.VaryOnlyLog shuffled :=
    ⟨by decide +kernel, by decide +kernel, by decide +kernel, by decide +kernel, nofun⟩
  have h : shuffled.Relates w.files v.files :=
    Variation.relates_put ⟨[(["work", "logs"], .directory)], ["work"]⟩ (by decide) _ _
  have hcalls : CallLog.SameCalls shuffled.left shuffled.right := by decide +kernel
  have hleft : (CallLog.read shuffled.left).isOk = true := by decide +kernel
  have hright : (CallLog.read shuffled.right).isOk = true := by decide +kernel
  have hrun := run_eq_of_sameCalls .standard shuffled w v hs h hleft hright hcalls
  refine ⟨hs, h, hcalls, ?_, hrun.1⟩
  decide +kernel

end Analysis

end CallDepth
