import CallDepth.Proofs.Analysis.Stages

/-!
# What is computed

Where there is no snapshot, the files that a run finds settle what it computes: those of the call log,
of the selection of the tests that is kept and, if there is none, of the list of tests. Of the files
only the selection changes until the index is exported.
-/

namespace CallDepth

open FileTree

/-! ### Files that can be read -/

namespace FileTree

variable {t u : FileTree} {path : String}

/-- Whether paths name the same files as before, as far as they can be read. -/
structure Untouched (paths : List String) (t u : FileTree) : Prop where
  workingDirectory_eq : u.workingDirectory = t.workingDirectory
  read_iff : ∀ path ∈ paths, ∀ bytes, u.read path = .ok bytes ↔ t.read path = .ok bytes

theorem readOr_congr {α : Type} (absent : α) (held : Bytes → α)
    (h : ∀ bytes, u.read path = .ok bytes ↔ t.read path = .ok bytes) :
    u.readOr path absent held = t.readOr path absent held := by
  cases hfile : t.isFile path with
  | true =>
    obtain ⟨bytes, hread⟩ := isFile_iff.mp hfile
    rw [readOr_of_read hread, readOr_of_read ((h bytes).mpr hread)]
  | false =>
    have hfile' : u.isFile path = false := by
      rw [← Bool.not_eq_true, isFile_iff] at hfile ⊢
      rintro ⟨bytes, hread⟩
      exact hfile ⟨bytes, (h bytes).mp hread⟩
    rw [readOr_of_isFile hfile, readOr_of_isFile hfile']

end FileTree

namespace Analysis

variable {σ : Type} [Disk (StateM σ)] [Medium σ] {s : Settings} {t u : FileTree} {g : CallGraph}

/-! ### The tests and the index -/

/-- The tests that are found in the files, with the number of listed ones that were not found if they
had to be selected. -/
def selectionAt (s : Settings) (g : CallGraph) (t : FileTree) :
    Except Failure (List Method × Option Nat) := do
  match ← (unitTests s).kept t with
  | some tests => return (tests, none)
  | none =>
    let (tests, unmatched) ← testsAt s g t
    return (tests, some unmatched)

def computedAt (s : Settings) (t : FileTree) : Except Failure (CallIndex × Details) := do
  let g ← graphAt s.callLog t
  let selection ← selectionAt s g t
  return result s g selection

theorem selectionAt_of_kept {tests : List Method}
    (h : (unitTests s).kept t = .ok (some tests)) : selectionAt s g t = .ok (tests, none) := by
  rw [selectionAt, h]
  rfl

theorem selectionAt_of_tests {tests : List Method} {unmatched : Nat}
    (h : (unitTests s).kept t = .ok none) (htests : testsAt s g t = .ok (tests, unmatched)) :
    selectionAt s g t = .ok (tests, some unmatched) := by
  rw [selectionAt, h, htests]
  rfl

theorem selectionAt_cases {selection : List Method × Option Nat}
    (h : selectionAt s g t = .ok selection) :
    ((unitTests s).kept t = .ok (some selection.1) ∧ selection.2 = none) ∨
      ∃ unmatched, (unitTests s).kept t = .ok none ∧
        testsAt s g t = .ok (selection.1, unmatched) ∧ selection.2 = some unmatched := by
  unfold selectionAt at h
  cases hkept : (unitTests s).kept t with
  | error failure =>
    rw [hkept] at h
    cases h
  | ok found =>
    rw [hkept] at h
    cases found with
    | some tests =>
      cases h
      exact Or.inl ⟨rfl, rfl⟩
    | none =>
      cases htests : testsAt s g t with
      | error failure =>
        rw [htests] at h
        cases h
      | ok r =>
        rw [htests] at h
        cases h
        exact Or.inr ⟨r.2, rfl, rfl, rfl⟩

theorem computedAt_of_graphAt (h : graphAt s.callLog t = .ok g) :
    computedAt s t = (selectionAt s g t).map (result s g) := by
  rw [computedAt, h]
  cases hselection : selectionAt s g t with
  | error failure => simp only [bind, Except.bind, hselection, Except.map]
  | ok selection => simp only [bind, Except.bind, hselection, Except.map, pure, Except.pure]

theorem computedAt_eq_ok_iff {r : CallIndex × Details} :
    computedAt s t = .ok r ↔ ∃ g selection, graphAt s.callLog t = .ok g ∧
      selectionAt s g t = .ok selection ∧ result s g selection = r := by
  cases hgraph : graphAt s.callLog t with
  | error failure =>
    rw [computedAt, hgraph]
    simp [bind, Except.bind]
  | ok g =>
    rw [computedAt_of_graphAt hgraph]
    cases hselection : selectionAt s g t with
    | error failure => simp [Except.map, hselection]
    | ok selection => simp [Except.map, hselection, -Prod.exists]

/-! ### Dependence -/

theorem graphAt_congr {path : String} (h : t.read path = u.read path) :
    graphAt path t = graphAt path u := by
  rw [graphAt, graphAt, h]

theorem graphAt_of_read_of_ok {path : String}
    (h : ∀ bytes, t.read path = .ok bytes → u.read path = .ok bytes)
    (hgraph : graphAt path t = .ok g) : graphAt path u = .ok g := by
  unfold graphAt at hgraph ⊢
  cases hread : t.read path with
  | error fault =>
    rw [hread] at hgraph
    cases fault <;> cases hgraph
  | ok log =>
    rw [hread] at hgraph
    rw [h log hread]
    exact hgraph

theorem testsAt_of_read_of_ok {r : List Method × Nat}
    (h : ∀ path ∈ s.testList, ∀ bytes, t.read path = .ok bytes → u.read path = .ok bytes)
    (htests : testsAt s g t = .ok r) : testsAt s g u = .ok r := by
  unfold testsAt at htests ⊢
  cases hlist : s.testList with
  | none =>
    rw [hlist] at htests
    exact htests
  | some path =>
    simp only [hlist] at htests ⊢
    cases hfile : t.isFile path with
    | true =>
      obtain ⟨bytes, hread⟩ := isFile_iff.mp hfile
      have hids : TestList.idsAt path t = TestList.held path bytes := readOr_of_read hread
      have hids' : TestList.idsAt path u = TestList.held path bytes :=
        readOr_of_read (h path hlist bytes hread)
      rw [hids', ← hids]
      exact htests
    | false =>
      have hids : TestList.idsAt path t = .error _ := readOr_of_isFile hfile
      rw [hids] at htests
      cases htests

theorem testsAt_congr (h : ∀ path ∈ s.testList, ∀ bytes,
    u.read path = .ok bytes ↔ t.read path = .ok bytes) : testsAt s g u = testsAt s g t := by
  unfold testsAt
  cases htests : s.testList with
  | none => rfl
  | some path =>
    have hids : TestList.idsAt path u = TestList.idsAt path t := readOr_congr _ _ (h path htests)
    simp only [hids]

/-! ### Storing the tests -/

/-- What selecting the tests leaves: those that are kept or none are not stored. -/
inductive Stored (s : Settings) (t : FileTree) : List Method × Option Nat → FileTree → Prop where
  | kept (tests : List Method) : Stored s t (tests, none) t
  | none (unmatched : Nat) : Stored s t ([], some unmatched) t
  | written {tests : List Method} {unmatched : Nat} {u : FileTree} (hne : tests ≠ [])
      (h : Written s.unitTestPath (MethodList.encode tests) t u) :
      Stored s t (tests, some unmatched) u

/-- How computing the index fails: while it reads, or in storing the tests. -/
inductive FailsComputing (s : Settings) (t : FileTree) : Failure → FileTree → Prop where
  | reading {failure : Failure} (h : computedAt s t = .error failure) :
      FailsComputing s t failure t
  | storing {g : CallGraph} {tests : List Method} {unmatched : Nat} {fault : Fault} {u : FileTree}
      (hgraph : graphAt s.callLog t = .ok g)
      (htests : selectionAt s g t = .ok (tests, some unmatched)) (hne : tests ≠ []) :
      FailsComputing s t (.io fault) u

theorem triple_tests_at (hgraph : graphAt s.callLog t = .ok g) :
    Triple σ (· = t) ((unitTests s).loadOrComputeWith (selectTests s g))
      (fun selection u => selectionAt s g t = .ok selection ∧ Stored s t selection u)
      (FailsComputing s t) := by
  have hreading : ∀ failure, selectionAt s g t = .error failure → FailsComputing s t failure t := by
    intro failure h
    refine .reading ?_
    rw [computedAt_of_graphAt hgraph, h]
    rfl
  refine Artifact.triple_loadOrComputeWith (fun tests unmatched u =>
    u = t ∧ selectionAt s g t = .ok (tests, some unmatched)) ?_ ?_ ?_ ?_ ?_
  · rintro tests u rfl hkept
    exact ⟨selectionAt_of_kept hkept, .kept tests⟩
  · rintro failure u rfl hkept
    refine hreading failure ?_
    rw [selectionAt, hkept]
    rfl
  · refine ((reads_selectTests s g).triple _).mono (fun u h => h) ?_ ?_
    · rintro ⟨tests, unmatched⟩ u ⟨⟨rfl, hkept⟩, htests⟩
      exact ⟨rfl, selectionAt_of_tests hkept htests⟩
    · rintro failure u ⟨⟨rfl, hkept⟩, htests⟩
      refine hreading failure ?_
      rw [selectionAt, hkept, htests]
      rfl
  · intro tests unmatched hstorable
    have hne : tests ≠ [] := by
      rintro rfl
      cases hstorable
    refine Artifact.triple_store ?_ ?_
    · rintro _ u ⟨rfl, hselection⟩ hwritten
      exact ⟨hselection, .written hne hwritten⟩
    · rintro fault _ u ⟨rfl, hselection⟩ -
      exact .storing hgraph hselection hne
  · rintro tests unmatched u hstorable ⟨rfl, hselection⟩
    obtain rfl : tests = [] := by
      cases tests with
      | nil => rfl
      | cons m rest => cases hstorable
    exact ⟨hselection, .none unmatched⟩

/-- Computing gives what is to be read off the files, and stores the tests if they were selected. -/
theorem triple_compute_at (s : Settings) (t : FileTree) :
    Triple σ (· = t) (compute s)
      (fun r u => ∃ g selection, graphAt s.callLog t = .ok g ∧ selectionAt s g t = .ok selection ∧
        result s g selection = r ∧ Stored s t selection u)
      (FailsComputing s t) := by
  refine triple_compute (fun g selection u => graphAt s.callLog t = .ok g ∧
    selectionAt s g t = .ok selection ∧ Stored s t selection u) _ ?_ ?_ ?_
  · rintro failure u rfl hgraph
    refine .reading ?_
    rw [computedAt, hgraph]
    rfl
  · intro g
    refine .of_forall fun u hu => ?_
    obtain ⟨rfl, hgraph⟩ := hu
    exact (triple_tests_at hgraph).mono (fun _ h => h) (fun _ _ h => ⟨hgraph, h⟩) fun _ _ h => h
  · rintro g selection u ⟨hgraph, hselection, hstored⟩
    exact ⟨g, selection, hgraph, hselection, rfl, hstored⟩

/-- Computing leaves all files if the tests need not be stored. -/
theorem triple_compute_unstored {selection : List Method × Option Nat}
    (hgraph : graphAt s.callLog t = .ok g) (hselection : selectionAt s g t = .ok selection)
    (hunstored : selection.1 = [] ∨ selection.2 = none) :
    Triple σ (· = t) (compute s) (fun r u => r = result s g selection ∧ u = t)
      (fun _ _ => False) := by
  refine (triple_compute_at s t).mono (fun _ h => h) ?_ ?_
  · rintro r u ⟨g', selection', hgraph', hselection', hr, hstored⟩
    cases hgraph.symm.trans hgraph'
    cases hselection.symm.trans hselection'
    refine ⟨hr.symm, ?_⟩
    cases hstored with
    | kept tests => rfl
    | none unmatched => rfl
    | written hne _ =>
      rcases hunstored with hnil | hkept
      · exact absurd hnil hne
      · cases hkept
  · intro failure u hfails
    cases hfails with
    | reading h =>
      have hcomputed : computedAt s t = .ok (result s g selection) :=
        computedAt_eq_ok_iff.mpr ⟨g, selection, hgraph, hselection, rfl⟩
      cases h.symm.trans hcomputed
    | storing hgraph' hselection' hne =>
      cases hgraph.symm.trans hgraph'
      cases hselection.symm.trans hselection'
      rcases hunstored with hnil | hkept
      · exact absurd hnil hne
      · cases hkept

end Analysis

end CallDepth
