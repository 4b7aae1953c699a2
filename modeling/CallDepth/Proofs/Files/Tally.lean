import CallDepth.Proofs.Files.Triple

/-!
# Tallies

A world with a count beside it. A program for any disk runs on a tally as it does on the world of
the tally, and leaves the count; only a task that is counted adds to it, one for each run of it. So
the count says how often a program runs a task that it is given.
-/

namespace CallDepth

variable {α β : Type}

/-- A world, and how often the tasks that are counted were run. -/
structure Tally where
  world : World
  runs : Nat

namespace Tally

/-- Does to the world of a tally what an action does to a world. -/
def onWorld (action : StateM World α) : StateM Tally α := fun t =>
  ((action.run t.world).1, { t with world := (action.run t.world).2 })

instance : Disk (StateM Tally) where
  isFile path := onWorld (Disk.isFile path)
  read path := onWorld (Disk.read path)
  write path bytes := onWorld (Disk.write path bytes)
  remove path := onWorld (Disk.remove path)
  makeParents path := onWorld (Disk.makeParents path)
  tell event := onWorld (Disk.tell event)

def run (t : Tally) (task : Task (StateM Tally) α) : Except Failure α × Tally := task.run.run t

/-- Runs a task on the world of a tally, and counts the run. -/
def counted (task : Task (StateM World) α) : Task (StateM Tally) α :=
  ExceptT.mk fun t =>
    ((t.world.run task).1, { world := (t.world.run task).2, runs := t.runs + 1 })

theorem run_bind (t : Tally) (p : Task (StateM Tally) α) (f : α → Task (StateM Tally) β) :
    t.run (p >>= f) =
      match t.run p with
      | (.ok a, t') => t'.run (f a)
      | (.error failure, t') => (.error failure, t') := by
  unfold run
  rw [Task.run_bind]
  cases p.run.run t with
  | mk result t' => cases result <;> rfl

theorem run_counted (t : Tally) (task : Task (StateM World) α) :
    t.run (counted task) =
      ((t.world.run task).1, { world := (t.world.run task).2, runs := t.runs + 1 }) := rfl

/-! ### Programs that count nothing -/

/-- Whether a task does to tallies what another one does to worlds, and counts nothing. -/
def Follows (q : Task (StateM Tally) α) (p : Task (StateM World) α) : Prop :=
  ∀ t : Tally, t.run q = ((t.world.run p).1, { t with world := (t.world.run p).2 })

namespace Follows

theorem pure (a : α) : Follows (pure a) (pure a) := fun _ => rfl

theorem throw (failure : Failure) :
    Follows (throw failure : Task (StateM Tally) α) (throw failure) := fun _ => rfl

theorem bind {q : Task (StateM Tally) α} {p : Task (StateM World) α}
    {g : α → Task (StateM Tally) β} {f : α → Task (StateM World) β} (hp : Follows q p)
    (hf : ∀ a, Follows (g a) (f a)) : Follows (q >>= g) (p >>= f) := by
  intro t
  rw [run_bind, hp t, World.run_bind]
  cases t.world.run p with
  | mk result w =>
    cases result with
    | ok a => exact hf a { t with world := w }
    | error failure => rfl

theorem isFile (path : String) : Follows (Task.isFile path) (Task.isFile path) := fun _ => rfl

theorem tell {importance : Importance} {message : String} {fields : List (String × String)} :
    Follows (Task.tell importance message fields) (Task.tell importance message fields) :=
  fun _ => rfl

theorem ofDisk (action : StateM World (Except Fault α)) :
    Follows (Task.ofDisk (onWorld action)) (Task.ofDisk action) := by
  have hlift : Follows (ExceptT.lift (onWorld action)) (ExceptT.lift action) := fun _ => rfl
  refine hlift.bind fun result => ?_
  cases result with
  | ok a => exact pure a
  | error fault => exact throw (.io fault)

theorem read (path : String) : Follows (Task.read path) (Task.read path) := ofDisk _

theorem write (path : String) (bytes : Bytes) :
    Follows (Task.write path bytes) (Task.write path bytes) := ofDisk _

theorem remove (path : String) : Follows (Task.remove path) (Task.remove path) := ofDisk _

theorem makeParents (path : String) : Follows (Task.makeParents path) (Task.makeParents path) :=
  ofDisk _

end Follows

end Tally

end CallDepth
