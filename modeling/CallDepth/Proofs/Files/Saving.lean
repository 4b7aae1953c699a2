import CallDepth.Proofs.Files.Triple

/-!
# Saving files

A file is saved by making the directories around it and writing it. What a task that saves a file
gives and leaves is what this makes of the file tree.
-/

namespace CallDepth

namespace FileTree

variable {t u : FileTree} {path : String} {bytes : Bytes}

/-- Makes the directories around a file and writes it; if it is refused, directories may be left. -/
def save (t : FileTree) (path : String) (bytes : Bytes) : Except Fault Unit × FileTree :=
  match t.makeParents path with
  | (.ok _, u) => u.write path bytes
  | (.error fault, u) => (.error fault, u)

/-- Whether a file can be saved does not depend on what is to be in it. -/
theorem fst_save_eq (t : FileTree) (path : String) (bytes bytes' : Bytes) :
    (t.save path bytes).1 = (t.save path bytes').1 := by
  unfold save
  cases t.makeParents path with
  | mk made u =>
    cases made with
    | error fault => rfl
    | ok =>
      dsimp only
      unfold write
      cases u.target path <;> rfl

theorem written_of_save (h : t.save path bytes = (.ok (), u)) : Written path bytes t u := by
  have hgrows := makeParents_grows t path
  unfold save at h
  split at h
  · rename_i v hmade
    rw [hmade] at hgrows
    exact hgrows.written (written_of_write h)
  · cases h

theorem grows_of_save {fault : Fault} (h : t.save path bytes = (.error fault, u)) : Grows t u := by
  have hgrows := makeParents_grows t path
  unfold save at h
  split at h
  · rename_i v hmade
    rw [hmade] at hgrows
    obtain rfl := eq_of_write_error h
    exact hgrows
  · rename_i found v hrefused
    rw [hrefused] at hgrows
    cases h
    exact hgrows

end FileTree

theorem World.run_save (w : World) (path : String) (bytes : Bytes) (importance : Importance)
    (message : String) (fields : List (String × String)) :
    ∃ events, w.run
        (do Task.makeParents path; Task.write path bytes; Task.tell importance message fields) =
      ((w.files.save path bytes).1.mapError Failure.io, ⟨(w.files.save path bytes).2, events⟩) := by
  rw [run_bind, run_makeParents, FileTree.save]
  cases w.files.makeParents path with
  | mk made t =>
    cases made with
    | error fault => exact ⟨_, rfl⟩
    | ok =>
      dsimp only [Except.mapError]
      rw [run_bind, run_write]
      dsimp only
      cases (t.write path bytes).1 with
      | error fault => exact ⟨_, rfl⟩
      | ok => exact ⟨_, rfl⟩

/-- What a task that saves a file leaves, where the file can be saved. -/
theorem Triple.save_ok {t : FileTree} {path message : String} {bytes : Bytes}
    {importance : Importance} {fields : List (String × String)}
    (h : (t.save path bytes).1 = .ok ()) :
    Triple World (· = t)
      (do Task.makeParents path; Task.write path bytes; Task.tell importance message fields)
      (fun _ u => u = (t.save path bytes).2) (fun _ _ => False) := by
  constructor
  rintro w rfl
  obtain ⟨events, hrun⟩ := w.run_save path bytes importance message fields
  have hsaved : (w.files.save path bytes).1 = .ok () := h
  unfold World.run at hrun
  rw [hrun, hsaved]
  rfl

end CallDepth
