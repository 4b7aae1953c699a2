import CallDepth.Files.Disk
import CallDepth.Reach.Strategy
import CallDepth.Selection
import CallDepth.Text.Utf8
import CallDepth.Toml.Document

/-!
# Settings

What an analysis reads, how it selects and traverses, and where it keeps what it finds. Settings are
written as a TOML document; those that it leaves out are the standard ones.
-/

namespace CallDepth

structure Settings where
  callLog : String
  /-- The directory in which the files that an analysis keeps are meant. -/
  workDir : String
  unitTestCache : String
  entrySnapshot : String
  entryJson : String
  /-- The list of tests, which are found by their names if there is none. -/
  testList : Option String
  naming : Naming
  /-- The scope of the project, which is taken from the tests if there is none. -/
  projectScope : Option String
  strategy : Strategy
  deriving DecidableEq, Repr

namespace Settings

def standard : Settings where
  callLog := "logs/test_source_call.log"
  workDir := "logs"
  unitTestCache := "unit_tests.json"
  entrySnapshot := "call_entries.bin"
  entryJson := "call_entries.json"
  testList := none
  naming := Naming.standard
  projectScope := none
  strategy := .depthFirst

/-! ### What follows from them -/

def unitTestPath (s : Settings) : String := Path.join s.workDir s.unitTestCache

def snapshotPath (s : Settings) : String := Path.join s.workDir s.entrySnapshot

def reportPath (s : Settings) : String := Path.join s.workDir s.entryJson

/-- How the graph is traversed if the tests share the given start of their types. -/
def traversal (s : Settings) (scope : String) : Traversal := ⟨s.projectScope.getD scope, s.strategy⟩

theorem scope_traversal_of_projectScope {s : Settings} {scope : String} (other : String)
    (h : s.projectScope = some scope) : (s.traversal other).scope = scope := by
  simp [traversal, h]

/-! ### Reading -/

/-- The naming of tests with one setting given; other keys mean nothing. -/
def setNaming? (naming : Naming) (key : String) (item : Toml.Item) : Option Naming :=
  match key with
  | "class_suffix" => item.text?.map fun s => { naming with classSuffix := s }
  | "method_prefix" => item.text?.map fun s => { naming with methodPrefix := s }
  | _ => some naming

/-- The naming of tests that an item is: a table, or a list with the suffix and the prefix in front.
A date has no setting in it. -/
def namingOf? : Toml.Item → Option Naming
  | .table _ entries =>
    entries.foldlM (fun naming entry => setNaming? naming entry.1 entry.2) .standard
  | .list [] => some .standard
  | .list [suffix] => setNaming? .standard "class_suffix" suffix
  | .list (suffix :: start :: _) => do
    let naming ← setNaming? .standard "class_suffix" suffix
    setNaming? naming "method_prefix" start
  | .date => some .standard
  | _ => none

def holdsNothing : Toml.Item → Bool
  | .table _ [] => true
  | .list [] => true
  | _ => false

/-- The strategy that an item is: a word, or a table with the word as its only key, which holds
nothing. -/
def strategyOf? : Toml.Item → Option Strategy
  | .text word => Strategy.ofWord? word
  | .table _ [(word, item)] => if holdsNothing item then Strategy.ofWord? word else none
  | _ => none

def set? (s : Settings) (key : String) (item : Toml.Item) : Option Settings :=
  match key with
  | "call_log" => item.text?.map fun path => { s with callLog := path }
  | "work_dir" => item.text?.map fun path => { s with workDir := path }
  | "unit_test_cache" => item.text?.map fun path => { s with unitTestCache := path }
  | "entry_snapshot" => item.text?.map fun path => { s with entrySnapshot := path }
  | "entry_json" => item.text?.map fun path => { s with entryJson := path }
  | "test_list" => item.text?.map fun path => { s with testList := some path }
  | "naming" => (namingOf? item).map fun naming => { s with naming }
  | "project_prefix" => item.text?.map fun scope => { s with projectScope := some scope }
  | "traversal" => (strategyOf? item).map fun strategy => { s with strategy }
  | _ => none

def ofTable? (t : Toml.Table) : Option Settings :=
  t.entries.foldlM (fun s entry => s.set? entry.1 entry.2) standard

def parse (text : String) : Except Failure Settings :=
  match (Toml.parse? text).bind ofTable? with
  | some s => .ok s
  | none => .error .invalidConfiguration

/-! ### Files -/

variable {m : Type → Type} [Monad m] [Disk m]

def load (path : String) : Task m Settings := do
  match Text.Utf8.toString? (← Task.read path) with
  | none => throw (.io .notText)
  | some text =>
    let s ← Task.ofExcept (parse text)
    Task.tell .debug "configuration loaded" [("path", path)]
    return s

def standardPath : String := "testreach.toml"

/-- The settings in the given file, or in the standard one if it is there. -/
def discover (path : Option String) : Task m Settings := do
  match path with
  | some path => load path
  | none => if ← Task.isFile standardPath then load standardPath else return standard

end Settings

end CallDepth
