import CallDepth.CallLog
import CallDepth.Settings
import CallDepth.Store.Artifact
import CallDepth.Store.MethodList
import CallDepth.Store.Report
import CallDepth.Store.Snapshot
import CallDepth.Store.TestList

/-!
# Analyses

From a call log to the index of what each unit test reaches. The index is kept as a snapshot, and a
report of it is written before the snapshot, so that where there is a snapshot there is a report.
The selection of the tests is kept too.
-/

namespace CallDepth

/-- Writes an index for other tools to a path. -/
abbrev Exporter (m : Type → Type) := CallIndex → String → Task m Unit

namespace Analysis

variable {m : Type → Type} [Monad m] [Disk m]

def unitTests (s : Settings) : Artifact (List Method) := ⟨s.unitTestPath, MethodList.codec⟩

def snapshot (s : Settings) : Artifact CallIndex := ⟨s.snapshotPath, Snapshot.codec⟩

/-! ### The graph -/

/-- The contents of a call log. That it is a directory shows only when it is read. -/
def readCallLog (path : String) : Task m Bytes := do
  match ← ExceptT.lift (Disk.read path) with
  | .ok bytes => return bytes
  | .error .isDirectory => throw (.io .isDirectory)
  | .error fault => throw (.callLog path fault)

def loadGraph (path : String) : Task m CallGraph := do
  let reading ← Task.ofExcept (CallLog.read (← readCallLog path))
  let graph := reading.graph
  if graph.isEmpty then
    Task.tell .warn "call log holds no call records" [("lines", toString reading.lines)]
  Task.tell .debug "call log consumed"
    [("lines", toString reading.lines), ("records", toString reading.records)]
  Task.tell .info "call graph built"
    [("callers", toString graph.callerCount), ("edges", toString graph.edgeCount)]
  return graph

/-! ### The tests -/

def selectNamed (naming : Naming) (g : CallGraph) : Task m (List Method) := do
  let tests := naming.select g
  Task.tell .info "unit tests selected by naming convention"
    [("selected", toString tests.length), ("callers", toString g.callerCount),
      ("suffix", naming.classSuffix), ("prefix", naming.methodPrefix)]
  return tests

def selectFrom (g : CallGraph) (ids : List String) : Task m ListSelection := do
  let selection := selectListed g ids
  selection.unmatched.forM fun id =>
    Task.tell .debug "listed test has no recorded calls" [("test", id)]
  Task.tell .info "unit tests selected from test list"
    [("selected", toString selection.tests.length),
      ("unmatched", toString selection.unmatched.length)]
  return selection

/-- Selects the tests as the settings say; with them comes how many listed ones were not found. -/
def selectTests (s : Settings) (g : CallGraph) : Task m (List Method × Nat) := do
  match s.testList with
  | some path =>
    let selection ← selectFrom g (← TestList.load path)
    return (selection.tests, selection.unmatched.length)
  | none => return (← selectNamed s.naming g, 0)

/-! ### The index -/

def traverse (t : Traversal) (g : CallGraph) (tests : List Method) : Task m CallIndex := do
  let index := t.index g tests
  tests.forM fun root =>
    Task.tell .debug "traversed test"
      [("root", root.canonical),
        ("reached", toString ((index.get? root.canonical).getD []).length)]
  Task.tell .info "call entries computed"
    [("tests", toString index.size), ("entries", toString index.totalEntries),
      ("prefix", t.scope), ("strategy", t.strategy.name)]
  return index

/-- What is known of an index that has just been computed. -/
structure Details where
  callers : Nat
  edges : Nat
  unitTests : CacheStatus
  scope : String
  /-- The number of listed tests that the log has no calls of. -/
  unmatched : Nat
  deriving DecidableEq, Repr

def resolve (s : Settings) (tests : List Method) : Task m Traversal := do
  if tests.isEmpty then
    Task.tell .warn "no unit tests selected; check the test naming convention" []
  let t := s.traversal (projectScope tests)
  Task.tell .info "project scope resolved"
    [("prefix", t.scope), ("tests", toString tests.length)]
  return t

def compute (s : Settings) : Task m (CallIndex × Details) := do
  let g ← loadGraph s.callLog
  let (tests, unmatched) ← (unitTests s).loadOrComputeWith (selectTests s g)
  let t ← resolve s tests
  let index ← traverse t g tests
  return (index,
    { callers := g.callerCount
      edges := g.edgeCount
      unitTests := .ofExtra unmatched
      scope := t.scope
      unmatched := unmatched.getD 0 })

/-! ### Runs -/

/-- What is known of a run; the details only if the index was computed. -/
structure Summary where
  tests : Nat
  totalEntries : Nat
  maxLevel : Nat
  computed : Option Details
  deriving DecidableEq, Repr

namespace Summary

def ofIndex (index : CallIndex) (computed : Option Details) : Summary :=
  ⟨index.size, index.totalEntries, index.maxLevel, computed⟩

def snapshot (summary : Summary) : CacheStatus := .ofExtra summary.computed

end Summary

/-- The index in the snapshot or, if there is none, the computed one, which is exported and then
kept. -/
def run (s : Settings) (exporter : Exporter m) : Task m (CallIndex × Summary) := do
  let (index, computed) ← (snapshot s).loadOrComputeWith do
    let (index, details) ← compute s
    exporter index s.reportPath
    return (index, details)
  return (index, .ofIndex index computed)

/-- Removes what is kept, so that the next run computes it anew. -/
def refresh (s : Settings) : Task m Unit := do
  (unitTests s).invalidate
  (snapshot s).invalidate

def exportSnapshot (s : Settings) (exporter : Exporter m) : Task m CallIndex := do
  match ← (snapshot s).load with
  | none => throw (.missingArtifact s.snapshotPath)
  | some index =>
    exporter index s.reportPath
    return index

end Analysis

end CallDepth
