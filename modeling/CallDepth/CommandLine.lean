import CallDepth.CommandLine.Request
import CallDepth.CommandLine.Wording

/-!
# The command line

Carries out what the arguments of the program ask for, on any disk.
-/

namespace CallDepth.CommandLine

/-- What the program leaves behind besides its effect on the disk. -/
structure Answer where
  exitCode : Nat
  output : String
  complaint : String
  deriving DecidableEq, Repr

def Stop.answer : Stop → Answer
  | usage => ⟨2, "", usageText⟩
  | help => ⟨0, helpText, ""⟩
  | version => ⟨0, versionText, ""⟩

variable {m : Type → Type} [Monad m] [Disk m]

/-- The lines that a task comes to, or else what it complains of, with what was tried. -/
abbrev Attempt (m : Type → Type) (α : Type) := ExceptT String m α

def attempt {α : Type} (context : String) (task : Task m α) : Attempt m α :=
  ExceptT.adapt (failureText context) task

def Request.perform (r : Request) : Attempt m (List String) := do
  let found ← attempt "Failed to load configuration" (Settings.discover r.config)
  let s := r.settings found
  match r.command with
  | .analyze _ refresh =>
    if refresh then attempt "Failed to discard cached artifacts" (Analysis.refresh s)
    let (_, summary) ← attempt "Analysis failed" (Analysis.run s Report.write)
    return summaryLines s summary
  | .writeReport =>
    let index ← attempt "Export failed" (Analysis.exportSnapshot s Report.write)
    return [reportLine s index]

def answer (args : List String) : m Answer :=
  match Request.read args with
  | .error stop => pure stop.answer
  | .ok r => do
    match ← r.perform.run with
    | .ok ls => return ⟨0, unlines ls, ""⟩
    | .error complaint => return ⟨1, "", complaint⟩

def isVerbose (args : List String) : Bool :=
  match Request.read args with
  | .error _ => false
  | .ok r => r.verbose

end CallDepth.CommandLine
