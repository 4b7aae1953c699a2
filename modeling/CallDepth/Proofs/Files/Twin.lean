import CallDepth.Proofs.Files.Alike
import CallDepth.Proofs.Files.Variation

/-!
# Two runs side by side

Two tasks, each run on its own world. Where a relation holds of the files that they are started on,
they both fail in the same way or both succeed, and a relation holds of what they give and leave.
-/

namespace CallDepth

variable {α β γ δ : Type}

/-- How two runs end: with related results, or in the same failure. -/
inductive EndAlike (after : α → β → FileTree → FileTree → Prop)
    (failed : FileTree → FileTree → Prop) :
    Except Failure α × World → Except Failure β × World → Prop
  | ok {a : α} {b : β} {w v : World} (h : after a b w.files v.files) :
      EndAlike after failed (.ok a, w) (.ok b, v)
  | error (failure : Failure) {w v : World} (h : failed w.files v.files) :
      EndAlike after failed (.error failure, w) (.error failure, v)

theorem EndAlike.mono {after after' : α → β → FileTree → FileTree → Prop}
    {failed failed' : FileTree → FileTree → Prop} {x : Except Failure α × World}
    {y : Except Failure β × World} (h : EndAlike after failed x y)
    (hafter : ∀ a b t u, after a b t u → after' a b t u)
    (hfailed : ∀ t u, failed t u → failed' t u) : EndAlike after' failed' x y := by
  cases h with
  | ok h => exact .ok (hafter _ _ _ _ h)
  | error failure h => exact .error failure (hfailed _ _ h)

def Twin (before : FileTree → FileTree → Prop) (p : Task (StateM World) α)
    (q : Task (StateM World) β) (after : α → β → FileTree → FileTree → Prop)
    (failed : FileTree → FileTree → Prop) : Prop :=
  ∀ w v : World, before w.files v.files → EndAlike after failed (w.run p) (v.run q)

namespace Twin

variable {before : FileTree → FileTree → Prop} {after : α → β → FileTree → FileTree → Prop}
  {failed : FileTree → FileTree → Prop} {p : Task (StateM World) α} {q : Task (StateM World) β}

theorem mono {before' failed' : FileTree → FileTree → Prop}
    {after' : α → β → FileTree → FileTree → Prop} (h : Twin before p q after failed)
    (hbefore : ∀ t u, before' t u → before t u) (hafter : ∀ a b t u, after a b t u → after' a b t u)
    (hfailed : ∀ t u, failed t u → failed' t u) : Twin before' p q after' failed' :=
  fun w v hwv => (h w v (hbefore _ _ hwv)).mono hafter hfailed

theorem pure {a : α} {b : β} (h : ∀ t u, before t u → after a b t u) :
    Twin before (pure a) (pure b) after failed :=
  fun _ _ hwv => .ok (h _ _ hwv)

theorem bind {f : α → Task (StateM World) γ} {g : β → Task (StateM World) δ}
    {final : γ → δ → FileTree → FileTree → Prop} (hp : Twin before p q after failed)
    (hf : ∀ a b, Twin (after a b) (f a) (g b) final failed) :
    Twin before (p >>= f) (q >>= g) final failed := by
  intro w v hwv
  have hend := hp w v hwv
  rw [World.run_bind, World.run_bind]
  generalize w.run p = x at hend ⊢
  generalize v.run q = y at hend ⊢
  cases hend with
  | ok h => exact hf _ _ _ _ h
  | error failure h => exact .error failure h

/-- After two tasks that give the same. -/
theorem bind_eq {p q : Task (StateM World) α} {R : α → FileTree → FileTree → Prop}
    {f : α → Task (StateM World) γ} {g : α → Task (StateM World) δ}
    {final : γ → δ → FileTree → FileTree → Prop}
    (hp : Twin before p q (fun a b t u => a = b ∧ R a t u) failed)
    (hf : ∀ a, Twin (R a) (f a) (g a) final failed) :
    Twin before (p >>= f) (q >>= g) final failed := by
  refine hp.bind fun a b => ?_
  rintro w v ⟨rfl, hwv⟩
  exact hf a w v hwv

/-- Two tasks that only read, and read the same. -/
theorem reads {f g : FileTree → Except Failure α} {p q : Task (StateM World) α}
    (hp : Reads World p f) (hq : Reads World q g) (h : ∀ t u, before t u → f t = g u) :
    Twin before p q (fun a b t u => a = b ∧ before t u ∧ f t = .ok a) before := by
  intro w v hwv
  obtain ⟨hresult, hfiles⟩ := hp.run_world w
  obtain ⟨hresult', hfiles'⟩ := hq.run_world v
  rw [← h _ _ hwv] at hresult'
  rw [← hfiles, ← hfiles'] at hwv
  cases hw : w.run p with
  | mk result w' =>
    cases hv : v.run q with
    | mk result' v' =>
      rw [hw] at hresult hfiles hwv
      rw [hv] at hresult' hwv
      dsimp only at hresult hresult' hfiles hwv
      rw [hresult, hresult']
      cases hf : f w.files with
      | ok a => exact .ok ⟨rfl, hwv, by rw [hfiles, hf]⟩
      | error failure => exact .error failure hwv

/-- Two tasks that only read and always give the same. -/
theorem reads_bind {a : α} {p q : Task (StateM World) α} {f : α → Task (StateM World) γ}
    {g : α → Task (StateM World) δ} {final : γ → δ → FileTree → FileTree → Prop}
    (hp : Reads World p fun _ => .ok a) (hq : Reads World q fun _ => .ok a)
    (hf : Twin before (f a) (g a) final before) : Twin before (p >>= f) (q >>= g) final before := by
  refine (reads hp hq fun _ _ _ => rfl).bind_eq fun b => ?_
  rintro w v ⟨hwv, hb⟩
  cases hb
  exact hf w v hwv

theorem tell_bind {importance importance' : Importance} {message message' : String}
    {fields fields' : List (String × String)} {f : Unit → Task (StateM World) α}
    {g : Unit → Task (StateM World) β} (hf : Twin before (f ()) (g ()) after failed) :
    Twin before (Task.tell importance message fields >>= f)
      (Task.tell importance' message' fields' >>= g) after failed :=
  fun w v hwv => hf ⟨w.files, _⟩ ⟨v.files, _⟩ hwv

open FileTree in
/-- Saving a file in two related trees, in which it can be written alike. -/
theorem save {clear : Location → Prop} {R after failed : FileTree → FileTree → Prop} {dir : Location}
    {path message : String} {bytes : Bytes} {importance : Importance}
    {fields : List (String × String)} (m : Matching clear R) (hpath : Admits clear R dir path)
    (hbefore : ∀ t u, before t u → R t u ∧ t.workingDirectory = dir)
    (hafter : ∀ t u t' u', before t u → R t' u' → Written path bytes t t' →
      Written path bytes u u' → after t' u')
    (hfailed : ∀ t u t' u', before t u → R t' u' → Grows t t' → Grows u u' → failed t' u') :
    Twin before
      (do Task.makeParents path; Task.write path bytes; Task.tell importance message fields)
      (do Task.makeParents path; Task.write path bytes; Task.tell importance message fields)
      (fun _ _ => after) failed := by
  intro w v hwv
  obtain ⟨h, hdir⟩ := hbefore _ _ hwv
  obtain ⟨result, t', u', ht, hu, h'⟩ := (m.save h hdir hpath bytes).exists_mk
  obtain ⟨events, hw⟩ := w.run_save path bytes importance message fields
  obtain ⟨events', hv⟩ := v.run_save path bytes importance message fields
  rw [hw, hv, ht, hu]
  cases result with
  | ok => exact .ok (hafter _ _ _ _ hwv h' (written_of_save ht) (written_of_save hu))
  | error fault =>
    exact .error (.io fault) (hfailed _ _ _ _ hwv h' (grows_of_save ht) (grows_of_save hu))

end Twin

/-! ### Trees that differ at some files -/

namespace FileTree

variable {dir : Location} {spots : List Location} {settled fewer : List String}
  {t u t' u' : FileTree} {path : String} {bytes : Bytes}

theorem contents?_eq_of_place_eq {other : String}
    (h : Path.place t.workingDirectory other = Path.place t.workingDirectory path) :
    t.contents? other = t.contents? path := by
  rw [contents?, contents?, h]

/-- Whether two trees in a directory are alike, and the files that some paths name are the same. -/
structure Settles (dir : Location) (spots : List Location) (settled : List String)
    (t u : FileTree) : Prop where
  dir_eq : t.workingDirectory = dir
  alike : Alike spots t u
  contents?_eq : ∀ path ∈ settled, t.contents? path = u.contents? path

namespace Settles

theorem mono (h : Settles dir spots settled t u) (hfewer : fewer ⊆ settled) :
    Settles dir spots fewer t u :=
  ⟨h.dir_eq, h.alike, fun path hpath => h.contents?_eq path (hfewer hpath)⟩

theorem read_eq (h : Settles dir spots settled t u) (hpath : Clears spots dir path)
    (hsettled : path ∈ settled) : t.read path = u.read path := by
  have hclears : Clears spots t.workingDirectory path := h.dir_eq.symm ▸ hpath
  exact h.alike.read_eq hclears (h.contents?_eq path hsettled)

theorem read_eq_of_off (h : Settles dir spots settled t u) (hpath : Clears spots dir path)
    (hplace : Off spots (Path.place dir path)) : t.read path = u.read path := by
  have hclears : Clears spots t.workingDirectory path := h.dir_eq.symm ▸ hpath
  exact h.alike.read_eq hclears (h.alike.contents?_eq (h.dir_eq.symm ▸ hplace))

/-- What has been written in both trees is the same there. -/
theorem written (h : Settles dir spots settled t u) (halike : Alike spots t' u')
    (ht : Written path bytes t t') (hu : Written path bytes u u') :
    Settles dir spots (path :: settled) t' u' := by
  have hdir := ht.stays.workingDirectory_eq.trans h.dir_eq
  refine ⟨hdir, halike, fun other hother => ?_⟩
  have hdir' := halike.workingDirectory_eq
  by_cases hplace : Path.place t'.workingDirectory other = Path.place t'.workingDirectory path
  · rw [contents?_eq_of_place_eq hplace, contents?_of_read ht.read,
      contents?_eq_of_place_eq (hdir' ▸ hplace), contents?_of_read hu.read]
  · have hne : Path.place t.workingDirectory other ≠ Path.place t.workingDirectory path := by
      rw [← ht.stays.workingDirectory_eq]
      exact hplace
    have hne' : Path.place u.workingDirectory other ≠ Path.place u.workingDirectory path := by
      rw [← h.alike.workingDirectory_eq]
      exact hne
    rcases List.mem_cons.mp hother with rfl | hsettled
    · exact absurd rfl hplace
    · rw [ht.keeps.contents?_eq hne, hu.keeps.contents?_eq hne']
      exact h.contents?_eq other hsettled

theorem grown (h : Settles dir spots settled t u) (halike : Alike spots t' u') (ht : Grows t t')
    (hu : Grows u u') : Settles dir spots settled t' u' := by
  refine ⟨ht.workingDirectory_eq.trans h.dir_eq, halike, fun path hpath => ?_⟩
  have hleft := (ht.leaves settled).contents?_eq path hpath
  have hright := (hu.leaves settled).contents?_eq path hpath
  rw [hleft, hright]
  exact h.contents?_eq path hpath

end Settles

end FileTree

open FileTree in
/-- Saving a file in two trees that are alike but perhaps for this file. -/
theorem Twin.save_settled {dir : Location} {spots : List Location} {settled : List String}
    {path message : String} {bytes : Bytes} {importance : Importance}
    {fields : List (String × String)} (hpath : Clears spots dir path) :
    Twin (Settles dir spots settled)
      (do Task.makeParents path; Task.write path bytes; Task.tell importance message fields)
      (do Task.makeParents path; Task.write path bytes; Task.tell importance message fields)
      (fun _ _ => Settles dir spots (path :: settled)) (Settles dir spots settled) :=
  .save (matching_alike spots) hpath.admits (fun _ _ h => ⟨h.alike, h.dir_eq⟩)
    (fun _ _ _ _ h halike ht hu => h.written halike ht hu)
    fun _ _ _ _ h halike ht hu => h.grown halike ht hu

/-- Saving a file in two trees that are equal but for another file. -/
theorem Twin.save_related {x : Variation} {path message : String} {bytes : Bytes}
    {importance : Importance} {fields : List (String × String)} (hpath : x.Avoids path) :
    Twin x.Relates
      (do Task.makeParents path; Task.write path bytes; Task.tell importance message fields)
      (do Task.makeParents path; Task.write path bytes; Task.tell importance message fields)
      (fun _ _ => x.Relates) x.Relates :=
  .save x.matching hpath.admits (fun _ _ h => ⟨h, h.left_workingDirectory⟩)
    (fun _ _ _ _ _ h _ _ => h) fun _ _ _ _ _ h _ _ => h

end CallDepth
