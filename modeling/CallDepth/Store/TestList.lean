import CallDepth.Files.Disk
import CallDepth.Json.Reader

/-!
# Lists of tests

A list of tests is a JSON array of their identifiers. Of a file that is none, what should be there is
told, and not where or why it is something else.
-/

namespace CallDepth.TestList

def decode? (bs : Bytes) : Option (List String) := do
  let items ← (← Json.ofBytes? bs).array?
  items.mapM Json.string?

variable {m : Type → Type} [Monad m] [Disk m]

def load (path : String) : Task m (List String) := do
  if !(← Task.isFile path) then throw (.missingArtifact path)
  match decode? (← Task.read path) with
  | none => throw (.invalidTestList path "expected a JSON array of test identifiers")
  | some ids =>
    Task.tell .info "test list loaded" [("path", path), ("tests", toString ids.length)]
    return ids

end CallDepth.TestList
