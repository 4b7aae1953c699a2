import CallDepth.Proofs.Analysis.History
import CallDepth.Proofs.Analysis.Twin
import CallDepth.Proofs.Reach.Roots
import CallDepth.Proofs.Scope
import CallDepth.Proofs.Store.MethodList

/-!
# The selection that is kept

Where a selection of tests is kept, it alone says what the roots of the index are and, with them, the
scope of the project. How else tests would be selected makes no difference to a run.
-/

namespace CallDepth

open FileTree

/-! ### The index of a list of tests -/

/-- What an index of tests holds: a row for the canonical form of each of them and no others, and in
it what the test reaches, which is nothing if the graph has no calls of it. -/
structure HoldsTests (index : CallIndex) (t : Traversal) (g : CallGraph) (tests : List Method) :
    Prop where
  isSome_iff : ∀ name, (index.get? name).isSome = true ↔ ∃ m ∈ tests, m.canonical = name
  get?_eq : ∀ m ∈ tests, index.get? m.canonical = some (t.entries g m)
  no_calls : ∀ m ∈ tests, g.callees? m = none → index.get? m.canonical = some []

theorem Traversal.holdsTests_index (t : Traversal) (g : CallGraph) (tests : List Method) :
    HoldsTests (t.index g tests) t g tests where
  isSome_iff _ := isSome_get?_index
  get?_eq _ hm := get?_index hm
  no_calls m hm hcalls := by rw [get?_index hm, entries_eq_nil hcalls]

/-- Whether a scope is the given one of settings or, if none is given, the longest start that the
types of the tests have in common. -/
def Settings.Scopes (s : Settings) (tests : List Method) (scope : String) : Prop :=
  (∀ given, s.projectScope = some given → scope = given) ∧
    (s.projectScope = none → ∀ start, start <+: scope.toList ↔
      ∀ m ∈ tests, start <+: m.declaringType.toList)

theorem scopes_traversal (s : Settings) {tests : List Method} (hne : tests ≠ []) :
    s.Scopes tests (s.traversal (projectScope tests)).scope := by
  constructor
  · intro given hgiven
    exact Settings.scope_traversal_of_projectScope _ hgiven
  · intro hnone start
    have htypes : tests.map Method.declaringType ≠ [] := by simpa using hne
    have hscope : (s.traversal (projectScope tests)).scope = projectScope tests := by
      rw [Settings.traversal, hnone]
      rfl
    rw [hscope, projectScope, isPrefix_longestCommonStart_iff htypes, List.forall_mem_map]

namespace Analysis

variable {s : Settings} {t : FileTree} {g : CallGraph} {tests : List Method}

/-! ### One run -/

theorem result_kept (s : Settings) (g : CallGraph) (hne : tests ≠ []) :
    let r := result s g (tests, none)
    r.2.unitTests = .hit ∧ s.Scopes tests r.2.scope ∧
      HoldsTests r.1 ⟨r.2.scope, s.strategy⟩ g tests :=
  ⟨rfl, scopes_traversal s hne, Traversal.holdsTests_index _ g tests⟩

/-- A run without a snapshot gives the index of the selection, unless it cannot write. It writes the
report and the snapshot and leaves the selection, if these are different files. -/
theorem triple_run_kept (hsnapshot : (snapshot s).kept t = .ok none)
    (hgraph : graphAt s.callLog t = .ok g) (htests : (unitTests s).kept t = .ok (some tests)) :
    let r := result s g (tests, none)
    let left (u : FileTree) : Prop := s.NamesApart t.workingDirectory → Leaves [s.unitTestPath] t u
    Triple World (· = t) (run s Report.write)
      (fun found u => found = (r.1, .ofIndex r.1 (some r.2)) ∧ left u)
      (fun failure u => (∃ fault, failure = .io fault) ∧ left u) := by
  intro r left
  have hwritten : ∀ {path : String} {bytes : Bytes} {u v : FileTree},
      (s.NamesApart t.workingDirectory →
        Path.place t.workingDirectory s.unitTestPath ≠ Path.place t.workingDirectory path) →
      left u → Written path bytes u v → left v := by
    intro path bytes u v hne hleaves hwritten hs
    refine (hleaves hs).trans (hwritten.leaves (List.forall_mem_singleton.mpr ?_))
    rw [(hleaves hs).workingDirectory_eq]
    exact hne hs
  have hgrown : ∀ {u v : FileTree}, left u → Grows u v → left v :=
    fun hleaves hgrows hs => (hleaves hs).trans (hgrows.leaves _)
  let given (r' : CallIndex × Details) (u : FileTree) : Prop := r' = r ∧ left u
  refine triple_run_of_none given given hsnapshot ?_ ?_ ?_
  · refine (triple_compute_unstored hgraph (selectionAt_of_kept htests) (Or.inr rfl)).mono
      (fun _ h => h) ?_ (fun _ _ h => h.elim)
    rintro r' u ⟨hr, rfl⟩
    exact ⟨hr, fun _ => .refl _ _⟩
  · intro r'
    refine Report.triple_write ?_ ?_
    · rintro u v ⟨hr, hleaves⟩ hreport
      exact ⟨hr, hwritten (fun hs => hs.artifacts.2.1) hleaves hreport⟩
    · rintro fault u v ⟨-, hleaves⟩ hrefused
      exact ⟨⟨fault, rfl⟩, hgrown hleaves hrefused.grows⟩
  · intro r'
    refine Artifact.triple_store ?_ ?_
    · rintro u v ⟨rfl, hleaves⟩ hstored
      exact ⟨rfl, hwritten (fun hs => hs.artifacts.1) hleaves hstored⟩
    · rintro fault u v ⟨-, hleaves⟩ hrefused
      exact ⟨⟨fault, rfl⟩, hgrown hleaves hrefused.grows⟩

/-! ### Two runs -/

/-- What a run comes to where a selection is kept does not depend on how else tests would be selected,
nor on files that its other paths do not lead through. -/
theorem twin_run_kept {dir : Location} {spots : List Location} (naming : Naming)
    (testList : Option String) {w v : World} (hdir : w.files.workingDirectory = dir)
    (hbypasses : ∀ path ∈ s.callLog :: s.artifactPaths, ∀ spot ∈ spots, Path.Bypasses spot dir path)
    (hsnapshot : (snapshot s).kept w.files = .ok none)
    (htests : (unitTests s).kept w.files = .ok (some tests)) (halike : Alike spots w.files v.files) :
    EndAlike (fun r r' t u => r = r' ∧ Settles dir spots s.artifactPaths t u)
      (Settles dir spots s.artifactPaths)
      (w.run (run s Report.write)) (v.run (run (s.selecting naming testList) Report.write)) := by
  have hclears : ∀ path ∈ s.callLog :: s.artifactPaths, Clears spots dir path :=
    fun path hpath => clears_of_bypasses (hbypasses path hpath)
  have hsettles : Settles dir spots (s.callLog :: s.artifactPaths) w.files v.files := by
    refine ⟨hdir, halike, fun path hpath => halike.contents?_eq ?_⟩
    rw [hdir]
    exact off_of_bypasses (hbypasses path hpath)
  have hunhindered := unhindered_settles
    (fun path hpath => hclears path (List.mem_cons_of_mem _ hpath)) s.unitTestPath_mem
    s.snapshotPath_mem
  have hsettled := hsettles.mono (List.subset_cons_self _ _)
  have hlog : w.files.read s.callLog = v.files.read s.callLog :=
    hsettles.read_eq (hclears _ (List.mem_cons_self ..)) (List.mem_cons_self ..)
  -- the lists of tests are not read, as there is a selection
  have hlists : ∀ g, (unitTests s).kept w.files = .ok none →
      testsAt s g w.files = testsAt (s.selecting naming testList) g v.files := by
    intro g hnone
    cases htests.symm.trans hnone
  have hend := endAlike_run hunhindered hsettled (fun index h => by cases hsnapshot.symm.trans h)
    (graphAt_congr hlog) hlists
  exact hend.mono (fun _ _ _ _ h => ⟨h.1, h.2.mono (List.subset_cons_self _ _)⟩) fun _ _ h => h

/-- Where the lists of tests lie that settings name, and those with another list. -/
def listPlaces (s : Settings) (testList : Option String) (dir : Location) : List Location :=
  (s.testList.toList ++ testList.toList).map (Path.place dir)

theorem bypasses_list {dir : Location} (hs : s.Separate dir) {list path : String}
    (hlist : list ∈ s.testList) (hpath : path ∈ s.callLog :: s.artifactPaths) :
    Path.Bypasses (Path.place dir list) dir path := by
  have hsource : list ∈ s.sourcePaths := by simp [Settings.sourcePaths, Option.mem_def.mp hlist]
  rcases List.mem_cons.mp hpath with rfl | hartifact
  · refine hs.2 _ (by simp [Settings.sourcePaths]) list (List.mem_append_right _ hsource) ?_
    exact fun heq => hs.1.callLog_ne hlist (congrArg _ heq)
  · refine hs.2 path (List.mem_append_left _ hartifact) list (List.mem_append_right _ hsource) ?_
    exact fun heq => hs.1.sources hsource hartifact (congrArg _ heq.symm)

theorem bypasses_listPlaces {dir : Location} {naming : Naming} {testList : Option String}
    (hs : s.Separate dir) (hs' : (s.selecting naming testList).Separate dir) {path : String}
    (hpath : path ∈ s.callLog :: s.artifactPaths) :
    ∀ spot ∈ listPlaces s testList dir, Path.Bypasses spot dir path := by
  intro spot hspot
  obtain ⟨list, hlist, rfl⟩ := List.mem_map.mp hspot
  rcases List.mem_append.mp hlist with hlist | hlist
  · exact bypasses_list hs (Option.mem_toList.mp hlist) hpath
  · have hlist' : list ∈ (s.selecting naming testList).testList := Option.mem_toList.mp hlist
    exact bypasses_list hs' hlist' hpath

/-- Where there is no snapshot, a selection is kept and the log can be read, the index has the tests of
the selection as its roots and their common start as its scope, if none is given. The whole outcome of
a run is the same with any other naming and list of tests, also on trees that differ at these lists if
all files are different ones; then the selection is left, too. -/
theorem kept_tests_settle_run (s : Settings) (w : World) (log cache : Bytes) (g : CallGraph)
    (tests : List Method) (hsnapshot : w.files.isFile s.snapshotPath = false)
    (hcache : w.files.read s.unitTestPath = .ok cache)
    (hdecode : MethodList.decode cache = .ok tests) (hlog : w.files.read s.callLog = .ok log)
    (hgraph : CallLog.graph log = .ok g) :
    let dir := w.files.workingDirectory
    let p := w.run (run s Report.write)
    (∃ index details, (w.run (compute s)).1 = .ok (index, details) ∧
      details.unitTests = .hit ∧ s.Scopes tests details.scope ∧
      HoldsTests index ⟨details.scope, s.strategy⟩ g tests ∧
      (p.1 = .ok (index, .ofIndex index (some details)) ∨ ∃ fault, p.1 = .error (.io fault))) ∧
    (∀ (naming : Naming) (testList : Option String) (v : World),
      v.files = w.files ∨ s.Separate dir ∧ (s.selecting naming testList).Separate dir ∧
        Alike (listPlaces s testList dir) w.files v.files →
      let q := v.run (run (s.selecting naming testList) Report.write)
      p.1 = q.1 ∧ (∀ path ∈ s.artifactPaths, p.2.files.read path = q.2.files.read path) ∧
        ∀ loc, Off (listPlaces s testList dir) loc → p.2.files.node? loc = q.2.files.node? loc) ∧
    (s.Separate dir → p.2.files.read s.unitTestPath = .ok cache) := by
  intro dir p
  have hnone : (snapshot s).kept w.files = .ok none := readOr_of_isFile hsnapshot
  have hkept : (unitTests s).kept w.files = .ok (some tests) :=
    kept_unitTests_iff.mpr ⟨cache, hcache, hdecode⟩
  have hgraph' : graphAt s.callLog w.files = .ok g := (graphAt_of_read hlog).trans hgraph
  have hne : tests ≠ [] := (MethodList.decode_eq_ok_iff.mp hdecode).1
  have hrun := triple_run_kept hnone hgraph' hkept
  refine ⟨?_, ?_, ?_⟩
  · have hcompute : Triple World (· = w.files) (compute s) _ _ :=
      triple_compute_unstored hgraph' (selectionAt_of_kept hkept) (Or.inr rfl)
    obtain ⟨hhit, hscope, hindex⟩ := result_kept s g hne
    refine ⟨_, _, ?_, hhit, hscope, hindex, ?_⟩
    · obtain ⟨r, hr, rfl, -⟩ := hcompute.exists_ok rfl
      exact hr
    · cases hresult : p.1 with
      | error failure =>
        obtain ⟨⟨fault, rfl⟩, -⟩ := hrun.of_error rfl hresult
        exact Or.inr ⟨fault, rfl⟩
      | ok r => exact Or.inl (congrArg _ (hrun.of_ok rfl hresult).1)
  · intro naming testList v hv q
    obtain ⟨spots, hspots, hbypasses, halike⟩ : ∃ spots ⊆ listPlaces s testList dir,
        (∀ path ∈ s.callLog :: s.artifactPaths, ∀ spot ∈ spots, Path.Bypasses spot dir path) ∧
        Alike spots w.files v.files := by
      rcases hv with hsame | ⟨hs, hs', halike⟩
      · exact ⟨[], List.nil_subset _, fun _ _ => nofun, hsame ▸ .refl_nil w.files⟩
      · exact ⟨_, List.Subset.refl _, fun path hpath => bypasses_listPlaces hs hs' hpath, halike⟩
    have hsame : ∀ {t u : FileTree}, Settles dir spots s.artifactPaths t u →
        (∀ path ∈ s.artifactPaths, t.read path = u.read path) ∧
          ∀ loc, Off (listPlaces s testList dir) loc → t.node? loc = u.node? loc := by
      intro t u h
      refine ⟨fun path hpath => ?_, fun loc hloc => ?_⟩
      · have hclears := clears_of_bypasses (hbypasses path (List.mem_cons_of_mem _ hpath))
        exact h.read_eq hclears hpath
      · exact h.alike.node?_eq loc fun spot hspot => hloc spot (hspots hspot)
    have hend : EndAlike _ _ p q := twin_run_kept naming testList rfl hbypasses hnone hkept halike
    generalize p = p at hend
    generalize q = q at hend
    cases hend with
    | ok h => exact ⟨congrArg Except.ok h.1, hsame h.2⟩
    | error failure h => exact ⟨rfl, hsame h⟩
  · intro hs
    have hleaves : Leaves [s.unitTestPath] w.files p.2.files :=
      (hrun.mono (fun _ h => h) (fun _ _ h => h.2 hs.1) fun _ _ h => h.2 hs.1).files rfl
    exact hleaves.read _ (List.mem_singleton_self _) _ hcache

/-- A selection that was edited by hand: a test twice, and a method that the log has no calls of. -/
def edited : Bytes := Text.Utf8.ofString "[\"Test:test()\", \"Other:run()\", \"Test:test()\"]"

theorem decode_edited : ((MethodList.decode edited).map (·.map Method.canonical)).toOption =
    some ["Test:test()", "Other:run()", "Test:test()"] := by
  decide +kernel

def withSelection : FileTree :=
  (withLog twoCalls).put ["work", "logs", "unit_tests.json"] (.file edited)

/-- The same tree with a list of tests, which is none. -/
def withList : FileTree :=
  withSelection.put ["work", "list.json"] (.file (Text.Utf8.ofString "nonsense"))

theorem edited_tests_settle_run :
    let s := Settings.standard
    let s' := s.selecting ⟨"X", "y"⟩ (some "list.json")
    let w := World.ofFiles withSelection
    let v := World.ofFiles withList
    s.Separate ["work"] ∧ s'.Separate ["work"] ∧
    (∃ index details, (w.run (compute s)).1 = .ok (index, details) ∧
      (index.get? "Other:run()").isSome = true) ∧
    (w.run (run s Report.write)).1 = (v.run (run s' Report.write)).1 ∧
    (w.run (run s Report.write)).2.files.read s.unitTestPath = .ok edited := by
  intro s s' w v
  have hs : s.Separate ["work"] := by decide +kernel
  have hs' : s'.Separate ["work"] := by decide +kernel
  have hsnapshot : w.files.isFile s.snapshotPath = false := by decide +kernel
  have hcache : w.files.read s.unitTestPath = .ok edited := by decide +kernel
  have hlog : w.files.read s.callLog = .ok twoCalls := by decide +kernel
  have hgraph : (CallLog.graph twoCalls).isOk = true := by decide +kernel
  have hplaces : listPlaces s (some "list.json") ["work"] = [["work", "list.json"]] := by
    decide +kernel
  have halike : Alike (listPlaces s (some "list.json") ["work"]) w.files v.files := by
    rw [hplaces]
    exact .put_right (by decide +kernel) _
  have hdecode := decode_edited
  cases htests : MethodList.decode edited with
  | error defect =>
    rw [htests] at hdecode
    cases hdecode
  | ok tests =>
    rw [htests] at hdecode
    have hnames : tests.map Method.canonical = ["Test:test()", "Other:run()", "Test:test()"] :=
      Option.some.inj hdecode
    obtain ⟨g, hg⟩ := isOk_iff.mp hgraph
    obtain ⟨⟨index, details, hcompute, -, -, hindex, -⟩, hsame, hleft⟩ :=
      kept_tests_settle_run s w twoCalls edited g tests hsnapshot hcache htests hlog hg
    have hroot : (index.get? "Other:run()").isSome = true := by
      rw [hindex.isSome_iff, ← List.mem_map, hnames]
      decide
    have hrun := hsame ⟨"X", "y"⟩ (some "list.json") v (Or.inr ⟨hs, hs', halike⟩)
    exact ⟨hs, hs', ⟨index, details, hcompute, hroot⟩, hrun.1, hleft hs⟩

end Analysis

end CallDepth
