import CallDepth.Files.Disk
import CallDepth.Store.Codec

/-!
# Artifacts

A value that is computed once and kept in a file. Where the file is, its value is used and nothing
is computed; where it is not, the value is computed and, if it is worth it, kept.
-/

namespace CallDepth

/-- How a value was come by. -/
inductive CacheStatus where
  | hit
  | computed
  deriving DecidableEq, Repr

def CacheStatus.ofExtra {β : Type} : Option β → CacheStatus
  | none => hit
  | some _ => computed

structure Artifact (α : Type) where
  path : String
  codec : Codec α

namespace Artifact

variable {m : Type → Type} [Monad m] [Disk m] {α : Type}

def isKept (a : Artifact α) : Task m Bool := Task.isFile a.path

/-- The value in the file, none if there is no file. -/
def load (a : Artifact α) : Task m (Option α) := do
  if !(← a.isKept) then
    Task.tell .debug "no cached artifact" [("path", a.path)]
    return none
  let bytes ← Task.read a.path
  match a.codec.decode bytes with
  | .error reason => throw (.invalidCache a.path reason)
  | .ok value =>
    Task.tell .info "reusing cached artifact" [("path", a.path)]
    return some value

def store (a : Artifact α) (value : α) : Task m Unit := do
  Task.makeParents a.path
  let bytes := a.codec.encode value
  Task.write a.path bytes
  Task.tell .debug "artifact stored" [("path", a.path), ("bytes", toString bytes.length)]

/-- The value in the file or, if there is none, the computed one, which is then kept. What else the
computation gave comes with it, if there was one. -/
def loadOrComputeWith {β : Type} (a : Artifact α) (compute : Task m (α × β)) :
    Task m (α × Option β) := do
  match ← a.load with
  | some value => return (value, none)
  | none =>
    let (value, extra) ← compute
    if a.codec.isStorable value then
      a.store value
    else
      Task.tell .warn "computed value not cached" [("path", a.path)]
    return (value, some extra)

def loadOrCompute (a : Artifact α) (compute : Task m α) : Task m (α × CacheStatus) := do
  let (value, extra) ← a.loadOrComputeWith (do return (← compute, ()))
  return (value, .ofExtra extra)

def invalidate (a : Artifact α) : Task m Unit := do
  if ← a.isKept then
    Task.remove a.path
    Task.tell .info "cached artifact removed" [("path", a.path)]

end Artifact

end CallDepth
