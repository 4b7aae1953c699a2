import CallDepth.Proofs.Analysis.Failing
import CallDepth.Proofs.Files.Twin

/-!
# Analyses side by side

Two runs on related trees. Where they find the same calls and the same tests, they fail in the same
way or give the same, and they leave the trees related.
-/

namespace CallDepth

open FileTree

variable {α β : Type}

namespace Artifact

variable {a : Artifact α} {before after failed : FileTree → FileTree → Prop}
  {compute compute' : Task (StateM World) (α × β)}

theorem kept_eq_of_read {t u : FileTree} (h : t.read a.path = u.read a.path) :
    a.kept t = a.kept u := by
  rw [kept, kept, readOr, readOr, h]

theorem twin_loadOrComputeWith (hread : ∀ t u, before t u → t.read a.path = u.read a.path)
    (hkept : ∀ value t u, before t u → a.kept t = .ok (some value) → after t u)
    (hinvalid : ∀ t u, before t u → failed t u)
    (hcompute : Twin (fun t u => before t u ∧ a.kept t = .ok none) compute compute'
      (fun r r' t u => r = r' ∧ after t u) failed)
    (hstore : ∀ value, Twin after (a.store value) (a.store value) (fun _ _ => after) failed) :
    Twin before (a.loadOrComputeWith compute) (a.loadOrComputeWith compute')
      (fun r r' t u => r = r' ∧ after t u) failed := by
  have hload : Twin before a.load a.load
      (fun found found' t u => found = found' ∧ before t u ∧ a.kept t = .ok found) failed :=
    (Twin.reads a.reads_load a.reads_load fun t u h => kept_eq_of_read (hread t u h)).mono
      (fun _ _ h => h) (fun _ _ _ _ h => h) hinvalid
  refine hload.bind_eq fun found => ?_
  cases found with
  | some value => exact .pure fun t u h => ⟨rfl, hkept value t u h.1 h.2⟩
  | none =>
    refine hcompute.bind_eq fun r => ?_
    obtain ⟨value, extra⟩ := r
    dsimp only
    split
    · exact (hstore value).bind fun _ _ => .pure fun t u h => ⟨rfl, h⟩
    · exact .tell_bind (.pure fun t u h => ⟨rfl, h⟩)

end Artifact

namespace Settings

variable {s : Settings} {dir : Location}

/-- The settings with the tests selected in another way. -/
def selecting (s : Settings) (naming : Naming) (testList : Option String) : Settings :=
  { s with naming, testList }

/-- Whether no path that settings name leads through or below a file that they name by another. -/
def NoneInside (s : Settings) (dir : Location) : Prop :=
  ∀ path ∈ s.artifactPaths ++ s.sourcePaths, ∀ other ∈ s.artifactPaths ++ s.sourcePaths,
    path ≠ other → Path.Bypasses (Path.place dir other) dir path

instance (s : Settings) (dir : Location) : Decidable (s.NoneInside dir) :=
  inferInstanceAs (Decidable (∀ _ ∈ _, _))

/-- Whether all files that settings name are different ones, and none lies in the way of another. -/
def Separate (s : Settings) (dir : Location) : Prop := s.NamesApart dir ∧ s.NoneInside dir

instance (s : Settings) (dir : Location) : Decidable (s.Separate dir) :=
  inferInstanceAs (Decidable (_ ∧ _))

theorem NamesApart.callLog_ne (hs : s.NamesApart dir) {list : String} (hlist : list ∈ s.testList) :
    Path.place dir s.callLog ≠ Path.place dir list := by
  have hsources : (s.sourcePaths.map (Path.place dir)).Nodup := by
    rw [NamesApart, List.map_append] at hs
    exact (List.nodup_append.mp hs).2.1
  rw [sourcePaths, Option.mem_def.mp hlist] at hsources
  simpa using hsources

end Settings

namespace Analysis

variable {s : Settings} {naming : Naming} {testList : Option String} {dir : Location}
  {spots : List Location} {settled : List String} {before R reported : FileTree → FileTree → Prop}

/-- Whether two runs on related trees find the same of what they keep, and save it alike. Once both
have written the report, another relation may hold. -/
structure Unhindered (s : Settings) (R reported : FileTree → FileTree → Prop) : Prop where
  read_unitTests : ∀ t u, R t u → t.read s.unitTestPath = u.read s.unitTestPath
  read_snapshot : ∀ t u, R t u → t.read s.snapshotPath = u.read s.snapshotPath
  store_unitTests : ∀ tests,
    Twin R ((unitTests s).store tests) ((unitTests s).store tests) (fun _ _ => R) R
  write_report : ∀ index, Twin R (Report.write index s.reportPath) (Report.write index s.reportPath)
    (fun _ _ => reported) R
  store_snapshot : ∀ index,
    Twin reported ((snapshot s).store index) ((snapshot s).store index) (fun _ _ => reported) R

/-- Trees that differ at some spots, if the files that settings keep can be followed nevertheless and
two of them are the same in both. -/
theorem unhindered_settles (hclears : ∀ path ∈ s.artifactPaths, Clears spots dir path)
    (hunitTests : s.unitTestPath ∈ settled) (hsnapshot : s.snapshotPath ∈ settled) :
    Unhindered s (Settles dir spots settled) (Settles dir spots (s.reportPath :: settled)) where
  read_unitTests _ _ h := h.read_eq (hclears _ s.unitTestPath_mem) hunitTests
  read_snapshot _ _ h := h.read_eq (hclears _ s.snapshotPath_mem) hsnapshot
  store_unitTests _ := (Twin.save_settled (hclears _ s.unitTestPath_mem)).mono (fun _ _ h => h)
    (fun _ _ _ _ h => h.mono (List.subset_cons_self _ _)) fun _ _ h => h
  write_report _ := Twin.save_settled (hclears _ s.reportPath_mem)
  store_snapshot _ := (Twin.save_settled (hclears _ s.snapshotPath_mem)).mono (fun _ _ h => h)
    (fun _ _ _ _ h => h.mono (List.subset_cons_self _ _))
    fun _ _ h => h.mono (List.subset_cons_self _ _)

theorem twin_compute (h : Unhindered s R reported) (hbefore : ∀ t u, before t u → R t u)
    (hgraph : ∀ t u, before t u → graphAt s.callLog t = graphAt s.callLog u)
    (htests : ∀ g t u, before t u → (unitTests s).kept t = .ok none →
      testsAt s g t = testsAt (s.selecting naming testList) g u) :
    Twin before (compute s) (compute (s.selecting naming testList))
      (fun r r' t u => r = r' ∧ R t u) R := by
  have hloaded := (Twin.reads (reads_loadGraph s.callLog) (reads_loadGraph s.callLog) hgraph).mono
    (fun _ _ h => h) (fun _ _ _ _ h => h) hbefore
  refine hloaded.bind_eq fun g => ?_
  have hselected : Twin (fun t u => before t u ∧ graphAt s.callLog t = .ok g)
      ((unitTests s).loadOrComputeWith (selectTests s g))
      ((unitTests s).loadOrComputeWith (selectTests (s.selecting naming testList) g))
      (fun r r' t u => r = r' ∧ R t u) R := by
    refine Artifact.twin_loadOrComputeWith ?_ ?_ ?_ ?_ h.store_unitTests
    · exact fun t u ht => h.read_unitTests t u (hbefore t u ht.1)
    · exact fun _ t u ht _ => hbefore t u ht.1
    · exact fun t u ht => hbefore t u ht.1
    · refine (Twin.reads (reads_selectTests s g) (reads_selectTests _ g) ?_).mono (fun _ _ h => h)
        (fun _ _ t u ht => ⟨ht.1, hbefore t u ht.2.1.1.1⟩) fun t u ht => hbefore t u ht.1.1
      exact fun t u ht => htests g t u ht.1.1 ht.2
  refine hselected.bind_eq fun selection => ?_
  refine Twin.reads_bind (reads_resolve s selection.1) (reads_resolve _ selection.1) ?_
  refine Twin.reads_bind (reads_traverse _ g selection.1) (reads_traverse _ g selection.1) ?_
  exact .pure fun t u ht => ⟨rfl, ht⟩

theorem twin_run (h : Unhindered s R reported) (hbefore : ∀ t u, before t u → R t u)
    (hkept : ∀ index t u, before t u → (snapshot s).kept t = .ok (some index) → reported t u)
    (hcompute : Twin before (compute s) (compute (s.selecting naming testList))
      (fun r r' t u => r = r' ∧ R t u) R) :
    Twin before (run s Report.write) (run (s.selecting naming testList) Report.write)
      (fun r r' t u => r = r' ∧ reported t u) R := by
  unfold run
  refine (?_ : Twin before _ _ (fun r r' t u => r = r' ∧ reported t u) R).bind_eq
    fun r => .pure fun t u ht => ⟨rfl, ht⟩
  refine Artifact.twin_loadOrComputeWith ?_ hkept hbefore ?_ h.store_snapshot
  · exact fun t u ht => h.read_snapshot t u (hbefore t u ht)
  · refine (hcompute.mono (fun _ _ ht => ht.1) (fun _ _ _ _ ht => ht) fun _ _ ht => ht).bind_eq
      fun r => ?_
    obtain ⟨index, details⟩ := r
    exact (h.write_report index).bind fun _ _ => .pure fun t u ht => ⟨rfl, ht⟩

/-- Two runs that find the same graph in the log and, if none are kept, the same tests. -/
theorem endAlike_run {w v : World} (h : Unhindered s R reported) (hrelated : R w.files v.files)
    (hkept : ∀ index, (snapshot s).kept w.files = .ok (some index) → reported w.files v.files)
    (hgraph : graphAt s.callLog w.files = graphAt s.callLog v.files)
    (htests : ∀ g, (unitTests s).kept w.files = .ok none →
      testsAt s g w.files = testsAt (s.selecting naming testList) g v.files) :
    EndAlike (fun r r' t u => r = r' ∧ reported t u) R
      (w.run (run s Report.write)) (v.run (run (s.selecting naming testList) Report.write)) := by
  let before (t u : FileTree) : Prop := t = w.files ∧ u = v.files
  have hbefore : ∀ t u, before t u → R t u := by
    rintro _ _ ⟨rfl, rfl⟩
    exact hrelated
  have hkept' : ∀ index t u, before t u → (snapshot s).kept t = .ok (some index) →
      reported t u := by
    rintro index _ _ ⟨rfl, rfl⟩
    exact hkept index
  have hgraph' : ∀ t u, before t u → graphAt s.callLog t = graphAt s.callLog u := by
    rintro _ _ ⟨rfl, rfl⟩
    exact hgraph
  have htests' : ∀ g t u, before t u → (unitTests s).kept t = .ok none →
      testsAt s g t = testsAt (s.selecting naming testList) g u := by
    rintro g _ _ ⟨rfl, rfl⟩
    exact htests g
  exact twin_run h hbefore hkept' (twin_compute h hbefore hgraph' htests') w v ⟨rfl, rfl⟩

end Analysis

end CallDepth
