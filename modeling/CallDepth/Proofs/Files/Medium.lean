import CallDepth.Files.Disk
import CallDepth.Proofs.Files.Frame

/-!
# Media

How tasks run on the state of a disk, and what all disks have in common that hold a file tree in their
state: each operation gives what it gives on the file tree, and leaves what it leaves there. On some
disks a write may stop half-way.
-/

namespace CallDepth

variable {σ α β : Type}

/-! ### Runs of tasks -/

namespace Task

theorem run_bind (x : σ) (p : Task (StateM σ) α) (f : α → Task (StateM σ) β) :
    (p >>= f).run.run x =
      match p.run.run x with
      | (.ok a, y) => (f a).run.run y
      | (.error failure, y) => (.error failure, y) := by
  rw [ExceptT.run_bind, StateT.run_bind]
  obtain ⟨result, y⟩ := p.run.run x
  cases result <;> rfl

theorem run_lift (x : σ) (action : StateM σ α) :
    (ExceptT.lift action : Task (StateM σ) α).run.run x = (.ok (action.run x).1, (action.run x).2) :=
  rfl

theorem run_ofDisk (x : σ) (action : StateM σ (Except Fault α)) :
    (ofDisk action).run.run x = ((action.run x).1.mapError Failure.io, (action.run x).2) := by
  change ((ExceptT.lift action >>= _ : Task (StateM σ) α)).run.run x = _
  rw [run_bind, run_lift]
  obtain ⟨result, y⟩ := action.run x
  cases result <;> rfl

end Task

namespace World

theorem run_bind (w : World) (p : Task (StateM World) α) (f : α → Task (StateM World) β) :
    w.run (p >>= f) =
      match w.run p with
      | (.ok a, w') => w'.run (f a)
      | (.error failure, w') => (.error failure, w') := by
  unfold run
  rw [Task.run_bind]
  obtain ⟨result, w'⟩ := p.run.run w
  cases result <;> rfl

theorem run_write (w : World) (path : String) (bytes : Bytes) :
    w.run (Task.write path bytes) =
      ((w.files.write path bytes).1.mapError Failure.io,
        { w with files := (w.files.write path bytes).2 }) :=
  Task.run_ofDisk w _

theorem run_makeParents (w : World) (path : String) :
    w.run (Task.makeParents path) =
      ((w.files.makeParents path).1.mapError Failure.io,
        { w with files := (w.files.makeParents path).2 }) :=
  Task.run_ofDisk w _

end World

/-! ### States that hold files -/

/-- A disk whose state holds a file tree, of which its operations show and change all that they do
show and change. -/
class Medium (σ : Type) [Disk (StateM σ)] where
  tree : σ → FileTree
  /-- Whether a write may stop half-way. -/
  stops : Prop
  run_isFile : ∀ path x, (Disk.isFile path : StateM σ Bool).run x = ((tree x).isFile path, x)
  run_read : ∀ path x, (Disk.read path : StateM σ (Except Fault Bytes)).run x = ((tree x).read path, x)
  run_write : ∀ path bytes x,
    (((Disk.write path bytes : StateM σ (Except Fault Unit)).run x).map id tree =
      (tree x).write path bytes) ∨
    stops ∧ ∃ limit, ((Disk.write path bytes : StateM σ (Except Fault Unit)).run x).map id tree =
      (tree x).writeWithin limit path bytes
  run_remove : ∀ path x, ((Disk.remove path : StateM σ (Except Fault Unit)).run x).map id tree =
    (tree x).remove path
  run_makeParents : ∀ path x,
    ((Disk.makeParents path : StateM σ (Except Fault Unit)).run x).map id tree =
      (tree x).makeParents path
  run_tell : ∀ event x, tree ((Disk.tell event : StateM σ Unit).run x).2 = tree x

instance : Medium World where
  tree := World.files
  stops := False
  run_isFile _ _ := rfl
  run_read _ _ := rfl
  run_write _ _ _ := Or.inl rfl
  run_remove _ _ := rfl
  run_makeParents _ _ := rfl
  run_tell _ _ := rfl

instance : Medium LimitedWorld where
  tree x := x.files
  stops := True
  run_isFile _ _ := rfl
  run_read _ _ := rfl
  run_write path bytes x := by
    have hwrite : ((Disk.write path bytes : StateM LimitedWorld (Except Fault Unit)).run x).map id
        (fun y => y.files) =
          match x.limits.head?.join with
          | none => x.files.write path bytes
          | some limit => x.files.writeWithin limit path bytes := rfl
    rw [hwrite]
    cases x.limits.head?.join with
    | none => exact Or.inl rfl
    | some limit => exact Or.inr ⟨trivial, limit, rfl⟩
  run_remove _ _ := rfl
  run_makeParents _ _ := rfl
  run_tell _ _ := rfl

end CallDepth
