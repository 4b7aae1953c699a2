import CallDepth.Proofs.Files.Medium

/-!
# Triples

What a task makes of the files that it is started on, on any disk that holds files: where a
precondition holds of them, a postcondition holds of what the task gives and leaves, or another of the
failure and of what is left then. Tasks that only read are described by what they give for each file
tree.
-/

namespace CallDepth

open Medium (tree)

variable {σ α β : Type} [Disk (StateM σ)] [Medium σ]

/-- Whether a task that is started where a precondition holds ends as the postconditions say. -/
structure Triple (σ : Type) [Disk (StateM σ)] [Medium σ] (before : FileTree → Prop)
    (p : Task (StateM σ) α) (after : α → FileTree → Prop) (failed : Failure → FileTree → Prop) :
    Prop where
  run : ∀ x : σ, before (tree x) →
    match p.run.run x with
    | (.ok a, y) => after a (tree y)
    | (.error failure, y) => failed failure (tree y)

/-- Whether a task leaves all files and gives what a function says of them. -/
def Reads (σ : Type) [Disk (StateM σ)] [Medium σ] (p : Task (StateM σ) α)
    (result : FileTree → Except Failure α) : Prop :=
  ∀ x : σ, (p.run.run x).1 = result (tree x) ∧ tree (p.run.run x).2 = tree x

/-! ### What is left of a file that is not saved -/

/-- What is left where a file could not be saved: at most directories, or, on a disk where a write may
stop half-way, a start of the file. -/
inductive Refused (σ : Type) [Disk (StateM σ)] [Medium σ] (path : String) (bytes : Bytes)
    (t u : FileTree) : Prop where
  | grown (h : FileTree.Grows t u)
  | stopped (hstops : Medium.stops σ) {cut : Bytes} (hcut : cut <+: bytes)
      (h : FileTree.Written path cut t u)

namespace Refused

variable {path : String} {bytes : Bytes} {t u v : FileTree}

theorem grows (h : Refused World path bytes t u) : FileTree.Grows t u := by
  cases h with
  | grown h => exact h
  | stopped hstops => exact hstops.elim

theorem keeps (h : Refused σ path bytes t u) :
    FileTree.Keeps (· ≠ Path.place t.workingDirectory path) t u := by
  cases h with
  | grown h => exact h.keeps _
  | stopped _ _ h => exact h.keeps

theorem stays (h : Refused σ path bytes t u) : FileTree.Stays t u := by
  cases h with
  | grown h => exact h.stays
  | stopped _ _ h => exact h.stays

theorem of_grows (hgrows : FileTree.Grows t u) (h : Refused σ path bytes u v) :
    Refused σ path bytes t v := by
  cases h with
  | grown h => exact .grown (hgrows.trans h)
  | stopped hstops hcut h => exact .stopped hstops hcut (hgrows.written h)

end Refused

namespace Triple

variable {before before' : FileTree → Prop} {after after' : α → FileTree → Prop}
  {failed failed' : Failure → FileTree → Prop} {p : Task (StateM σ) α} {x : σ}

/-! ### From a triple to a run -/

theorem of_ok (h : Triple σ before p after failed) (hx : before (tree x)) {a : α}
    (hrun : (p.run.run x).1 = .ok a) : after a (tree (p.run.run x).2) := by
  have hp := h.run x hx
  cases hcases : p.run.run x with
  | mk result y =>
    rw [hcases] at hp hrun
    dsimp only at hrun
    subst hrun
    exact hp

theorem of_error (h : Triple σ before p after failed) (hx : before (tree x)) {failure : Failure}
    (hrun : (p.run.run x).1 = .error failure) : failed failure (tree (p.run.run x).2) := by
  have hp := h.run x hx
  cases hcases : p.run.run x with
  | mk result y =>
    rw [hcases] at hp hrun
    dsimp only at hrun
    subst hrun
    exact hp

/-- A task that does not fail gives a result. -/
theorem exists_ok {p : Task (StateM World) α} {w : World}
    (h : Triple World before p after fun _ _ => False) (hw : before w.files) :
    ∃ a, (w.run p).1 = .ok a ∧ after a (w.run p).2.files := by
  cases hrun : (w.run p).1 with
  | error failure => exact (h.of_error hw hrun).elim
  | ok a => exact ⟨a, rfl, h.of_ok hw hrun⟩

theorem files {left : FileTree → Prop}
    (h : Triple σ before p (fun _ => left) (fun _ => left)) (hx : before (tree x)) :
    left (tree (p.run.run x).2) := by
  cases hrun : (p.run.run x).1 with
  | ok a => exact h.of_ok hx hrun
  | error failure => exact h.of_error hx hrun

theorem of_files {left : FileTree → Prop}
    (h : ∀ x : σ, before (tree x) → left (tree (p.run.run x).2)) :
    Triple σ before p (fun _ => left) (fun _ => left) := by
  constructor
  intro x hx
  have hleft := h x hx
  cases hrun : p.run.run x with
  | mk result y =>
    rw [hrun] at hleft
    cases result with
    | ok a => exact hleft
    | error failure => exact hleft

/-! ### Rules -/

theorem mono (h : Triple σ before p after failed) (hbefore : ∀ t, before' t → before t)
    (hafter : ∀ a t, after a t → after' a t)
    (hfailed : ∀ failure t, failed failure t → failed' failure t) :
    Triple σ before' p after' failed' := by
  constructor
  intro x hx
  have hp := h.run x (hbefore _ hx)
  cases hrun : p.run.run x with
  | mk result y =>
    rw [hrun] at hp
    cases result with
    | ok a => exact hafter a _ hp
    | error failure => exact hfailed failure _ hp

theorem of_false : Triple σ (fun _ => False) p after failed := ⟨fun _ h => h.elim⟩

theorem pure {a : α} (h : ∀ t, before t → after a t) : Triple σ before (pure a) after failed :=
  ⟨fun x hx => h (tree x) hx⟩

theorem throw {failure : Failure} (h : ∀ t, before t → failed failure t) :
    Triple σ before (throw failure : Task (StateM σ) α) after failed :=
  ⟨fun x hx => h (tree x) hx⟩

theorem bind {f : α → Task (StateM σ) β} {final : β → FileTree → Prop}
    (hp : Triple σ before p after failed) (hf : ∀ a, Triple σ (after a) (f a) final failed) :
    Triple σ before (p >>= f) final failed := by
  constructor
  intro x hx
  have hrun := hp.run x hx
  rw [Task.run_bind]
  cases hcases : p.run.run x with
  | mk result y =>
    rw [hcases] at hrun
    cases result with
    | ok a => exact (hf a).run y hrun
    | error failure => exact hrun

theorem tell {importance : Importance} {message : String} {fields : List (String × String)}
    {after : Unit → FileTree → Prop} (h : ∀ t, before t → after () t) :
    Triple σ before (Task.tell importance message fields) after failed := by
  constructor
  intro x hx
  rw [Task.tell, Task.run_lift]
  dsimp only
  rw [Medium.run_tell]
  exact h (tree x) hx

theorem tell_bind {importance : Importance} {message : String}
    {fields : List (String × String)} {f : Unit → Task (StateM σ) α}
    (hf : Triple σ before (f ()) after failed) :
    Triple σ before (Task.tell importance message fields >>= f) after failed :=
  bind (tell fun _ h => h) fun _ => hf

/-- Any rule for a task whose start is one tree is a rule for a task whose start is some tree. -/
theorem of_forall (h : ∀ t, before t → Triple σ (· = t) p after failed) :
    Triple σ before p after failed :=
  ⟨fun x hx => (h (tree x) hx).run x rfl⟩

/-! ### Writing -/

/-- What an operation of a disk makes of the files that it finds. -/
theorem ofDisk {action : StateM σ (Except Fault α)}
    (h : ∀ x, before (tree x) →
      match (action.run x).map id tree with
      | (.ok a, t) => after a t
      | (.error fault, t) => failed (.io fault) t) :
    Triple σ before (Task.ofDisk action) after failed := by
  constructor
  intro x hx
  have haction := h x hx
  rw [Task.run_ofDisk]
  cases hrun : action.run x with
  | mk result y =>
    rw [hrun] at haction
    cases result with
    | ok a => exact haction
    | error fault => exact haction

theorem makeParents {path : String} {after : Unit → FileTree → Prop}
    (h : ∀ t u, before t → FileTree.Grows t u → after () u)
    (hfailed : ∀ fault t u, before t → FileTree.Grows t u → failed (.io fault) u) :
    Triple σ before (Task.makeParents path) after failed := by
  refine ofDisk fun x hx => ?_
  have hgrows := (tree x).makeParents_grows path
  rw [Medium.run_makeParents]
  cases hmade : (tree x).makeParents path with
  | mk result u =>
    rw [hmade] at hgrows
    cases result with
    | ok => exact h _ _ hx hgrows
    | error fault => exact hfailed fault _ _ hx hgrows

theorem write {path : String} {bytes : Bytes} {after : Unit → FileTree → Prop}
    (h : ∀ t u, before t → FileTree.Written path bytes t u → after () u)
    (hfailed : ∀ fault t u, before t → Refused σ path bytes t u → failed (.io fault) u) :
    Triple σ before (Task.write path bytes) after failed := by
  refine ofDisk fun x hx => ?_
  rcases Medium.run_write path bytes x with hrun | ⟨hstops, limit, hrun⟩
  · rw [hrun]
    cases hwrite : (tree x).write path bytes with
    | mk result u =>
      cases result with
      | ok => exact h _ _ hx (FileTree.written_of_write hwrite)
      | error fault =>
        obtain rfl := FileTree.eq_of_write_error hwrite
        exact hfailed fault _ _ hx (.grown (.refl _))
  · rw [hrun]
    cases hwrite : (tree x).writeWithin limit path bytes with
    | mk result u =>
      cases result with
      | ok =>
        exact h _ _ hx (FileTree.written_of_write (FileTree.write_of_writeWithin hwrite))
      | error fault =>
        refine hfailed fault _ _ hx ?_
        rcases FileTree.eq_or_written_of_writeWithin hwrite with rfl | ⟨cut, hcut, hwritten⟩
        · exact .grown (.refl _)
        · exact .stopped hstops hcut hwritten

theorem remove {path : String} {after : Unit → FileTree → Prop}
    (hfile : ∀ t, before t → t.isFile path = true)
    (h : ∀ t, before t → after () (t.erase (Path.place t.workingDirectory path))) :
    Triple σ before (Task.remove path) after failed := by
  refine ofDisk fun x hx => ?_
  rw [Medium.run_remove, FileTree.remove_of_isFile (hfile _ hx)]
  exact h _ hx

/-- Saving a file: its directories are made, it is written, and this is told. -/
theorem save {path message : String} {bytes : Bytes} {importance : Importance}
    {fields : List (String × String)} {after : Unit → FileTree → Prop}
    (h : ∀ t u, before t → FileTree.Written path bytes t u → after () u)
    (hfailed : ∀ fault t u, before t → Refused σ path bytes t u → failed (.io fault) u) :
    Triple σ before
      (do Task.makeParents path; Task.write path bytes; Task.tell importance message fields)
      after failed := by
  have hparents : Triple σ before (Task.makeParents path)
      (fun _ u => ∃ t, before t ∧ FileTree.Grows t u) failed :=
    makeParents (fun t u ht hgrows => ⟨t, ht, hgrows⟩)
      fun fault t u ht hgrows => hfailed fault t u ht (.grown hgrows)
  refine hparents.bind fun _ => ?_
  have hwrite : Triple σ (fun u => ∃ t, before t ∧ FileTree.Grows t u) (Task.write path bytes)
      after failed := by
    refine write ?_ ?_
    · rintro m u ⟨t, ht, hgrows⟩ hwritten
      exact h t u ht (hgrows.written hwritten)
    · rintro fault m u ⟨t, ht, hgrows⟩ hrefused
      exact hfailed fault t u ht (hrefused.of_grows hgrows)
  exact hwrite.bind fun _ => tell fun _ hu => hu

end Triple

namespace Reads

variable {p : Task (StateM σ) α} {result : FileTree → Except Failure α}

theorem triple (h : Reads σ p result) (before : FileTree → Prop) :
    Triple σ before p (fun a t => before t ∧ result t = .ok a)
      (fun failure t => before t ∧ result t = .error failure) := by
  constructor
  intro x hx
  obtain ⟨hresult, hfiles⟩ := h x
  cases hrun : p.run.run x with
  | mk found y =>
    rw [hrun] at hresult hfiles
    dsimp only at hresult hfiles
    rw [← hfiles] at hx hresult
    cases found with
    | ok a => exact ⟨hx, hresult.symm⟩
    | error failure => exact ⟨hx, hresult.symm⟩

theorem run_world {p : Task (StateM World) α} (h : Reads World p result) (w : World) :
    (w.run p).1 = result w.files ∧ (w.run p).2.files = w.files := h w

theorem congr {result' : FileTree → Except Failure α} (h : Reads σ p result)
    (heq : ∀ t, result t = result' t) : Reads σ p result' :=
  fun x => ⟨(h x).1.trans (heq (tree x)), (h x).2⟩

/-! ### Rules -/

theorem pure (a : α) : Reads σ (pure a) fun _ => .ok a := fun _ => ⟨rfl, rfl⟩

theorem throw (failure : Failure) :
    Reads σ (throw failure : Task (StateM σ) α) fun _ => .error failure := fun _ => ⟨rfl, rfl⟩

theorem ofExcept (found : Except Failure α) : Reads σ (Task.ofExcept found) fun _ => found :=
  fun _ => ⟨rfl, rfl⟩

theorem tell {importance : Importance} {message : String} {fields : List (String × String)} :
    Reads σ (Task.tell importance message fields) fun _ => .ok () :=
  fun x => ⟨rfl, Medium.run_tell _ x⟩

theorem bind {f : α → Task (StateM σ) β} {result' : α → FileTree → Except Failure β}
    (hp : Reads σ p result) (hf : ∀ a, Reads σ (f a) (result' a)) :
    Reads σ (p >>= f) fun t => result t >>= fun a => result' a t := by
  intro x
  obtain ⟨hresult, hfiles⟩ := hp x
  rw [Task.run_bind]
  cases hrun : p.run.run x with
  | mk found y =>
    rw [hrun] at hresult hfiles
    dsimp only at hresult hfiles ⊢
    rw [← hresult, ← hfiles]
    cases found with
    | ok a => exact hf a y
    | error failure => exact ⟨rfl, rfl⟩

theorem ok_bind {a : α} {f : α → Task (StateM σ) β} {result : FileTree → Except Failure β}
    (hp : Reads σ p fun _ => .ok a) (hf : Reads σ (f a) result) : Reads σ (p >>= f) result := by
  intro x
  obtain ⟨hresult, hfiles⟩ := hp x
  rw [Task.run_bind]
  cases hrun : p.run.run x with
  | mk found y =>
    rw [hrun] at hresult hfiles
    dsimp only at hresult hfiles
    subst hresult
    rw [← hfiles]
    exact hf y

theorem tell_bind {importance : Importance} {message : String}
    {fields : List (String × String)} {f : Unit → Task (StateM σ) α}
    (hf : Reads σ (f ()) result) : Reads σ (Task.tell importance message fields >>= f) result :=
  tell.ok_bind hf

theorem throw_bind (failure : Failure) (f : β → Task (StateM σ) α) :
    Reads σ (MonadExcept.throw failure >>= f) fun _ => .error failure := fun _ => ⟨rfl, rfl⟩

theorem forM {ι : Type} {f : ι → Task (StateM σ) Unit} (items : List ι)
    (hf : ∀ i, Reads σ (f i) fun _ => .ok ()) : Reads σ (items.forM f) fun _ => .ok () := by
  induction items with
  | nil => exact pure ()
  | cons i rest ih =>
    unfold List.forM
    exact (hf i).bind fun _ => ih

theorem lift {f : FileTree → α} {action : StateM σ α}
    (h : ∀ x : σ, action.run x = (f (tree x), x)) :
    Reads σ (ExceptT.lift action) fun t => .ok (f t) := by
  intro x
  rw [Task.run_lift, h x]
  exact ⟨rfl, rfl⟩

theorem isFile (path : String) : Reads σ (Task.isFile path) fun t => .ok (t.isFile path) :=
  lift (Medium.run_isFile path)

theorem read (path : String) : Reads σ (Task.read path) fun t => (t.read path).mapError .io := by
  intro x
  rw [Task.read, Task.run_ofDisk, Medium.run_read]
  exact ⟨rfl, rfl⟩

theorem readFile {path : String} {f : Bool → Task (StateM σ) α}
    {g : Bytes → Task (StateM σ) α} {absent : Except Failure α}
    {held : Bytes → Except Failure α} (hf : f true = Task.read path >>= g)
    (hg : ∀ bytes, Reads σ (g bytes) fun _ => held bytes) (habsent : Reads σ (f false) fun _ => absent) :
    Reads σ (Task.isFile path >>= f) fun t => t.readOr path absent held := by
  have hf : ∀ isFile, Reads σ (f isFile) fun t =>
      if isFile then (t.read path).mapError Failure.io >>= held else absent := by
    intro isFile
    cases isFile with
    | true =>
      rw [hf]
      exact (Reads.read path).bind hg
    | false => exact habsent
  refine ((Reads.isFile path).bind hf).congr fun t => ?_
  cases hfile : t.isFile path with
  | false =>
    rw [FileTree.readOr_of_isFile hfile]
    rfl
  | true =>
    obtain ⟨bytes, hread⟩ := FileTree.isFile_iff.mp hfile
    rw [FileTree.readOr_of_read hread, hread]
    rfl

end Reads

/-- A triple is not affected by a task in front that only reads and always gives the same. -/
theorem Triple.reads_bind {before : FileTree → Prop} {after : β → FileTree → Prop}
    {failed : Failure → FileTree → Prop} {p : Task (StateM σ) α} {a : α}
    {f : α → Task (StateM σ) β} (hp : Reads σ p fun _ => .ok a)
    (hf : Triple σ before (f a) after failed) : Triple σ before (p >>= f) after failed := by
  constructor
  intro x hx
  obtain ⟨hresult, hfiles⟩ := hp x
  rw [Task.run_bind]
  cases hrun : p.run.run x with
  | mk found y =>
    rw [hrun] at hresult hfiles
    dsimp only at hresult hfiles
    subst hresult
    exact hf.run y (hfiles ▸ hx)

end CallDepth
