import CallDepth.Analysis
import CallDepth.Proofs.CallLog
import CallDepth.Proofs.Except
import CallDepth.Proofs.Files.Triple

/-!
# Stages of an analysis

What each stage makes of the files. The stages that read are functions of the file tree; those that
write do so by saving one file; and the rules for a run are put together from the rules for its stages.
-/

namespace CallDepth

variable {σ α β : Type} [Disk (StateM σ)] [Medium σ]

/-! ### Artifacts -/

namespace Artifact

variable {a : Artifact α} {t : FileTree}

def held (a : Artifact α) (bytes : Bytes) : Except Failure (Option α) :=
  match a.codec.decode bytes with
  | .error reason => .error (.invalidCache a.path reason)
  | .ok value => .ok (some value)

/-- What is loaded, none if there is no file. -/
def kept (a : Artifact α) (t : FileTree) : Except Failure (Option α) :=
  t.readOr a.path (.ok none) a.held

theorem kept_cases (a : Artifact α) (t : FileTree) :
    (∃ bytes, t.read a.path = .ok bytes ∧ a.kept t = a.held bytes) ∨
      t.isFile a.path = false ∧ a.kept t = .ok none := by
  cases hfile : t.isFile a.path with
  | true =>
    obtain ⟨bytes, hread⟩ := FileTree.isFile_iff.mp hfile
    exact Or.inl ⟨bytes, hread, FileTree.readOr_of_read hread⟩
  | false => exact Or.inr ⟨rfl, FileTree.readOr_of_isFile hfile⟩

theorem held_of_decode {bytes : Bytes} {value : α} (h : a.codec.decode bytes = .ok value) :
    a.held bytes = .ok (some value) := by
  rw [held, h]

theorem held_of_decode_error {bytes : Bytes} {reason : String}
    (h : a.codec.decode bytes = .error reason) :
    a.held bytes = .error (.invalidCache a.path reason) := by
  rw [held, h]

theorem kept_eq_some_iff {value : α} :
    a.kept t = .ok (some value) ↔
      ∃ bytes, t.read a.path = .ok bytes ∧ a.codec.decode bytes = .ok value := by
  constructor
  · intro h
    rcases a.kept_cases t with ⟨bytes, hread, hkept⟩ | ⟨-, hkept⟩
    · refine ⟨bytes, hread, ?_⟩
      rw [h, held] at hkept
      cases hdecode : a.codec.decode bytes with
      | error reason =>
        rw [hdecode] at hkept
        cases hkept
      | ok found =>
        rw [hdecode] at hkept
        cases hkept
        rfl
    · cases h.symm.trans hkept
  · rintro ⟨bytes, hread, hdecode⟩
    have hkept : a.kept t = a.held bytes := FileTree.readOr_of_read hread
    exact hkept.trans (held_of_decode hdecode)

theorem reads_load (a : Artifact α) : Reads σ a.load a.kept := by
  refine Reads.readFile rfl (fun bytes => ?_) (.tell_bind (.pure none))
  unfold held
  cases a.codec.decode bytes with
  | error reason => exact .throw _
  | ok value => exact .tell_bind (.pure _)

variable {before : FileTree → Prop} {failed : Failure → FileTree → Prop}

theorem triple_store {value : α} {after : Unit → FileTree → Prop}
    (h : ∀ t u, before t → FileTree.Written a.path (a.codec.encode value) t u → after () u)
    (hfailed : ∀ fault t u, before t → Refused σ a.path (a.codec.encode value) t u →
      failed (.io fault) u) :
    Triple σ before (a.store value) after failed :=
  Triple.save h hfailed

theorem triple_loadOrComputeWith {compute : Task (StateM σ) (α × β)}
    {after : α × Option β → FileTree → Prop} (computed : α → β → FileTree → Prop)
    (hkept : ∀ value t, before t → a.kept t = .ok (some value) → after (value, none) t)
    (hinvalid : ∀ failure t, before t → a.kept t = .error failure → failed failure t)
    (hcompute : Triple σ (fun t => before t ∧ a.kept t = .ok none) compute
      (fun r => computed r.1 r.2) failed)
    (hstore : ∀ value extra, a.codec.isStorable value = true →
      Triple σ (computed value extra) (a.store value) (fun _ => after (value, some extra)) failed)
    (hskip : ∀ value extra t, a.codec.isStorable value = false → computed value extra t →
      after (value, some extra) t) :
    Triple σ before (a.loadOrComputeWith compute) after failed := by
  have hload := ((reads_load a : Reads σ a.load a.kept).triple before).mono (fun _ h => h) (fun _ _ h => h)
    fun failure t h => hinvalid failure t h.1 h.2
  refine hload.bind fun found => ?_
  cases found with
  | some value => exact .pure fun t h => hkept value t h.1 h.2
  | none =>
    refine hcompute.bind fun r => ?_
    obtain ⟨value, extra⟩ := r
    dsimp only
    split
    · rename_i hstorable
      exact (hstore value extra hstorable).bind fun _ => .pure fun _ h => h
    · rename_i hstorable
      refine .tell_bind (.pure fun t h => hskip value extra t ?_ h)
      exact Bool.not_eq_true _ ▸ hstorable

theorem triple_invalidate {after : Unit → FileTree → Prop}
    (habsent : ∀ t, before t → t.isFile a.path = false → after () t)
    (hpresent : ∀ t, before t → t.isFile a.path = true →
      after () (t.erase (Path.place t.workingDirectory a.path))) :
    Triple σ before a.invalidate after failed := by
  have hfile : Triple σ before (Task.isFile a.path)
      (fun isFile t => before t ∧ .ok (t.isFile a.path) = (.ok isFile : Except Failure Bool)) failed :=
    ((Reads.isFile a.path).triple before).mono (fun _ h => h) (fun _ _ h => h)
      fun failure t h => by cases h.2
  refine hfile.bind fun isFile => ?_
  cases isFile with
  | false => exact .pure fun t h => habsent t h.1 (Except.ok.inj h.2)
  | true =>
    refine (Triple.remove (fun t h => Except.ok.inj h.2) fun t h => ?_).bind fun _ => .tell fun _ h => h
    exact hpresent t h.1 (Except.ok.inj h.2)

end Artifact

theorem Report.triple_write {index : CallIndex} {path : String} {before : FileTree → Prop}
    {failed : Failure → FileTree → Prop} {after : Unit → FileTree → Prop}
    (h : ∀ t u, before t → FileTree.Written path (Report.encode index) t u → after () u)
    (hfailed : ∀ fault t u, before t → Refused σ path (Report.encode index) t u →
      failed (.io fault) u) :
    Triple σ before (Report.write index path) after failed :=
  Triple.save h hfailed

namespace TestList

def held (path : String) (bytes : Bytes) : Except Failure (List String) :=
  match decode? bytes with
  | none => .error (.invalidTestList path "expected a JSON array of test identifiers")
  | some ids => .ok ids

def idsAt (path : String) (t : FileTree) : Except Failure (List String) :=
  t.readOr path (.error (.missingArtifact path)) (held path)

theorem reads_load (path : String) : Reads σ (load path) (idsAt path) := by
  refine Reads.readFile rfl (fun bytes => ?_) (Reads.throw_bind _ _)
  unfold held
  cases decode? bytes with
  | none => exact .throw _
  | some ids => exact .tell_bind (.pure _)

end TestList

namespace Analysis

/-! ### What is kept -/

theorem kept_unitTests_iff {s : Settings} {t : FileTree} {tests : List Method} :
    (unitTests s).kept t = .ok (some tests) ↔
      ∃ bytes, t.read s.unitTestPath = .ok bytes ∧ MethodList.decode bytes = .ok tests := by
  simp only [Artifact.kept_eq_some_iff, unitTests, MethodList.codec, mapError_eq_ok_iff]

theorem kept_snapshot_iff {s : Settings} {t : FileTree} {index : CallIndex} :
    (snapshot s).kept t = .ok (some index) ↔
      ∃ bytes, t.read s.snapshotPath = .ok bytes ∧ Snapshot.decode bytes = .ok index := by
  simp only [Artifact.kept_eq_some_iff, snapshot, Snapshot.codec, mapError_eq_ok_iff]

/-! ### The graph and the tests -/

/-- The contents of the call log, or why it cannot be read. -/
def logOf (path : String) : Except Fault Bytes → Except Failure Bytes
  | .ok bytes => .ok bytes
  | .error .isDirectory => .error (.io .isDirectory)
  | .error fault => .error (.callLog path fault)

def graphAt (path : String) (t : FileTree) : Except Failure CallGraph :=
  logOf path (t.read path) >>= CallLog.graph

theorem reads_readCallLog (path : String) :
    Reads σ (readCallLog path) fun t => logOf path (t.read path) := by
  have hread : Reads σ (ExceptT.lift (Disk.read path)) fun t => .ok (t.read path) :=
    .lift (Medium.run_read path)
  refine hread.bind fun found => (?_ : Reads σ _ fun _ => logOf path found)
  cases found with
  | ok bytes => exact .pure _
  | error fault => cases fault <;> exact .throw _

theorem reads_loadGraph (path : String) : Reads σ (loadGraph path) (graphAt path) := by
  refine (reads_readCallLog path).bind fun bytes => (?_ : Reads σ _ fun _ => CallLog.graph bytes)
  unfold CallLog.graph
  cases CallLog.read bytes with
  | error failure => exact Reads.throw_bind failure _
  | ok reading =>
    refine (Reads.ofExcept _).ok_bind ?_
    dsimp only
    split
    · exact .tell_bind (.tell_bind (.tell_bind (.pure _)))
    · exact .tell_bind (.tell_bind (.pure _))

/-- The tests that are selected, with the number of listed ones that were not found. -/
def testsAt (s : Settings) (g : CallGraph) (t : FileTree) : Except Failure (List Method × Nat) :=
  match s.testList with
  | some path =>
    (TestList.idsAt path t).map fun ids =>
      ((selectListed g ids).tests, (selectListed g ids).unmatched.length)
  | none => .ok (s.naming.select g, 0)

theorem reads_selectTests (s : Settings) (g : CallGraph) :
    Reads σ (selectTests s g) (testsAt s g) := by
  unfold selectTests testsAt
  cases s.testList with
  | some path =>
    refine ((TestList.reads_load path).bind fun ids => (?_ : Reads σ _ fun _ =>
      .ok ((selectListed g ids).tests, (selectListed g ids).unmatched.length))).congr fun t => ?_
    · have hselect : Reads σ (selectFrom g ids) fun _ => .ok (selectListed g ids) := by
        unfold selectFrom
        exact (Reads.forM _ fun id => .tell).ok_bind (.tell_bind (.pure _))
      exact hselect.ok_bind (.pure _)
    · dsimp only
      cases TestList.idsAt path t <;> rfl
  | none =>
    have hselect : Reads σ (selectNamed s.naming g) fun _ => .ok (s.naming.select g) :=
      .tell_bind (.pure _)
    exact hselect.ok_bind (.pure _)

/-! ### The index -/

theorem reads_resolve (s : Settings) (tests : List Method) :
    Reads σ (resolve s tests) fun _ => .ok (s.traversal (projectScope tests)) := by
  unfold resolve
  dsimp only
  split
  · exact .tell_bind (.tell_bind (.pure _))
  · exact .tell_bind (.pure _)

/-- The index of selected tests, with what is known of it. -/
def result (s : Settings) (g : CallGraph) (selection : List Method × Option Nat) :
    CallIndex × Details :=
  let t := s.traversal (projectScope selection.1)
  (t.index g selection.1,
    { callers := g.callerCount
      edges := g.edgeCount
      unitTests := .ofExtra selection.2
      scope := t.scope
      unmatched := selection.2.getD 0 })

theorem reads_traverse (t : Traversal) (g : CallGraph) (tests : List Method) :
    Reads σ (traverse t g tests) fun _ => .ok (t.index g tests) := by
  unfold traverse
  exact (Reads.forM _ fun root => .tell).ok_bind (.tell_bind (.pure _))

section

variable {s : Settings} {exporter : Exporter (StateM σ)} {before : FileTree → Prop}
  {failed : Failure → FileTree → Prop}

theorem triple_compute (selected : CallGraph → List Method × Option Nat → FileTree → Prop)
    (computed : CallIndex × Details → FileTree → Prop)
    (hgraph : ∀ failure t, before t → graphAt s.callLog t = .error failure → failed failure t)
    (htests : ∀ g, Triple σ (fun t => before t ∧ graphAt s.callLog t = .ok g)
      ((unitTests s).loadOrComputeWith (selectTests s g)) (selected g) failed)
    (hindex : ∀ g selection t, selected g selection t → computed (result s g selection) t) :
    Triple σ before (compute s) computed failed := by
  have hloaded := ((reads_loadGraph s.callLog : Reads σ _ _).triple before).mono (fun _ h => h)
    (fun _ _ h => h) fun failure t h => hgraph failure t h.1 h.2
  refine hloaded.bind fun g => (htests g).bind fun selection => ?_
  refine Triple.reads_bind (reads_resolve s selection.1) ?_
  exact Triple.reads_bind (reads_traverse _ g selection.1)
    (.pure fun t h => hindex g selection t h)

theorem triple_run (computed exported : CallIndex × Details → FileTree → Prop)
    (after : CallIndex × Summary → FileTree → Prop)
    (hkept : ∀ index t, before t → (snapshot s).kept t = .ok (some index) →
      after (index, .ofIndex index none) t)
    (hinvalid : ∀ failure t, before t → (snapshot s).kept t = .error failure → failed failure t)
    (hcompute : Triple σ (fun t => before t ∧ (snapshot s).kept t = .ok none) (compute s) computed
      failed)
    (hexport : ∀ r : CallIndex × Details, Triple σ (computed r) (exporter r.1 s.reportPath)
      (fun _ => exported r) failed)
    (hstore : ∀ r : CallIndex × Details, Triple σ (exported r) ((snapshot s).store r.1)
      (fun _ => after (r.1, .ofIndex r.1 (some r.2))) failed) :
    Triple σ before (run s exporter) after failed := by
  unfold run
  refine (?_ : Triple σ before _ (fun r => after (r.1, .ofIndex r.1 r.2)) failed).bind
    fun r => .pure fun _ h => h
  refine Artifact.triple_loadOrComputeWith (fun index details => exported (index, details)) hkept
    hinvalid ?_ (fun index details _ => hstore (index, details)) ?_
  · refine hcompute.bind fun r => ?_
    exact (hexport r).bind fun _ => .pure fun _ h => h
  · -- every index is stored
    intro index details t hstorable
    cases hstorable

/-- A run without a snapshot computes the index, exports it and stores it. -/
theorem triple_run_of_none {after : CallIndex × Summary → FileTree → Prop} {t : FileTree}
    (computed exported : CallIndex × Details → FileTree → Prop)
    (hnone : (snapshot s).kept t = .ok none)
    (hcompute : Triple σ (· = t) (compute s) computed failed)
    (hexport : ∀ r : CallIndex × Details, Triple σ (computed r) (exporter r.1 s.reportPath)
      (fun _ => exported r) failed)
    (hstore : ∀ r : CallIndex × Details, Triple σ (exported r) ((snapshot s).store r.1)
      (fun _ => after (r.1, .ofIndex r.1 (some r.2))) failed) :
    Triple σ (· = t) (run s exporter) after failed := by
  refine triple_run computed exported after ?_ ?_ ?_ hexport hstore
  · rintro index u rfl hkept
    cases hnone.symm.trans hkept
  · rintro failure u rfl hkept
    cases hnone.symm.trans hkept
  · exact hcompute.mono (fun _ h => h.1) (fun _ _ h => h) fun _ _ h => h

theorem triple_exportSnapshot {after : CallIndex → FileTree → Prop}
    (hmissing : ∀ t, before t → (snapshot s).kept t = .ok none →
      failed (.missingArtifact s.snapshotPath) t)
    (hinvalid : ∀ failure t, before t → (snapshot s).kept t = .error failure → failed failure t)
    (hexport : ∀ index, Triple σ
      (fun t => before t ∧ (snapshot s).kept t = .ok (some index)) (exporter index s.reportPath)
      (fun _ => after index) failed) :
    Triple σ before (exportSnapshot s exporter) after failed := by
  have hload := (((snapshot s).reads_load : Reads σ _ _).triple before).mono (fun _ h => h) (fun _ _ h => h)
    fun failure t h => hinvalid failure t h.1 h.2
  refine hload.bind fun found => ?_
  cases found with
  | none => exact .throw fun t h => hmissing t h.1 h.2
  | some index => exact (hexport index).bind fun _ => .pure fun _ h => h

end

end Analysis

end CallDepth
