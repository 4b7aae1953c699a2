import CallDepth.Files.Event
import CallDepth.Files.FileTree

/-!
# Disks

What a program does to files and where it tells of its course. A program is written for any disk; on
a world, which is a file tree and the events told so far, its effect is a value. There are worlds whose
disk takes all that is written, and limited ones, where a write may stop half-way.
-/

namespace CallDepth

class Disk (m : Type → Type) where
  isFile : String → m Bool
  read : String → m (Except Fault Bytes)
  write : String → Bytes → m (Except Fault Unit)
  remove : String → m (Except Fault Unit)
  makeParents : String → m (Except Fault Unit)
  tell : Event → m Unit

/-- A program that may fail. -/
abbrev Task (m : Type → Type) (α : Type) := ExceptT Failure m α

namespace Task

variable {m : Type → Type} [Monad m]

def ofDisk {α : Type} (action : m (Except Fault α)) : Task m α := do
  match ← (action : Task m _) with
  | .ok value => pure value
  | .error fault => throw (.io fault)

def isFile [Disk m] (path : String) : Task m Bool := ExceptT.lift (Disk.isFile path)

def read [Disk m] (path : String) : Task m Bytes := ofDisk (Disk.read path)

def write [Disk m] (path : String) (bytes : Bytes) : Task m Unit := ofDisk (Disk.write path bytes)

def remove [Disk m] (path : String) : Task m Unit := ofDisk (Disk.remove path)

def makeParents [Disk m] (path : String) : Task m Unit := ofDisk (Disk.makeParents path)

def tell [Disk m] (importance : Importance) (message : String)
    (fields : List (String × String)) : Task m Unit :=
  ExceptT.lift (Disk.tell ⟨importance, message, fields⟩)

def ofExcept {α : Type} (result : Except Failure α) : Task m α := ExceptT.mk (pure result)

end Task

/-- A file tree and the events told so far, last first. -/
structure World where
  files : FileTree
  events : List Event

instance : Disk (StateM World) where
  isFile path := fun w => (w.files.isFile path, w)
  read path := fun w => (w.files.read path, w)
  write path bytes := fun w =>
    let (result, files) := w.files.write path bytes
    (result, { w with files })
  remove path := fun w =>
    let (result, files) := w.files.remove path
    (result, { w with files })
  makeParents path := fun w =>
    let (result, files) := w.files.makeParents path
    (result, { w with files })
  tell event := fun w => ((), { w with events := event :: w.events })

namespace World

def ofFiles (files : FileTree) : World := ⟨files, []⟩

def run {α : Type} (w : World) (task : Task (StateM World) α) : Except Failure α × World :=
  task.run.run w

end World

/-- A world whose disk may refuse a write or stop it half-way: which limit there is to each of the next
writes, if any. -/
structure LimitedWorld extends World where
  limits : List (Option FileTree.Limit)

namespace LimitedWorld

def onWorld {α : Type} (action : StateM World α) : StateM LimitedWorld α := fun x =>
  let (a, w) := action.run x.toWorld
  (a, { x with toWorld := w })

def write (path : String) (bytes : Bytes) : StateM LimitedWorld (Except Fault Unit) := fun x =>
  let (result, files) :=
    match x.limits.head?.join with
    | none => x.files.write path bytes
    | some limit => x.files.writeWithin limit path bytes
  (result, { x with files, limits := x.limits.tail })

instance : Disk (StateM LimitedWorld) where
  isFile path := onWorld (Disk.isFile path)
  read path := onWorld (Disk.read path)
  write := write
  remove path := onWorld (Disk.remove path)
  makeParents path := onWorld (Disk.makeParents path)
  tell event := onWorld (Disk.tell event)

def ofFiles (files : FileTree) (limits : List (Option FileTree.Limit)) : LimitedWorld :=
  { World.ofFiles files with limits }

def run {α : Type} (x : LimitedWorld) (task : Task (StateM LimitedWorld) α) :
    Except Failure α × LimitedWorld :=
  task.run.run x

end LimitedWorld

end CallDepth
