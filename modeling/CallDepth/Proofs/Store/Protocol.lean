import CallDepth.Proofs.Analysis.Stages
import CallDepth.Proofs.Files.Saving
import CallDepth.Proofs.Files.Tally
import CallDepth.Proofs.Store.Malformed
import CallDepth.Proofs.Store.Refusal

/-!
# The protocol of artifacts

A sequence of calls for one artifact, with whatever happens between them. A call uses the file if
there is one, and else runs its computation, once; what it keeps is what every later call gives,
whatever that is to compute, until something else changes the file or the artifact is made invalid.
-/

namespace CallDepth

variable {α : Type}

namespace Artifact

open Tally

variable {a : Artifact α} {value : α}

/-! ### Calls -/

/-- What a call gives and leaves, its computation being counted. -/
def call (a : Artifact α) (compute : Task (StateM World) α) (t : Tally) :
    Except Failure (α × CacheStatus) × Tally :=
  t.run (a.loadOrCompute (counted compute))

/-- Keeps a computed value if it is worth it, and gives it. -/
def keep {m : Type → Type} [Monad m] [Disk m] (a : Artifact α) (value : α) :
    Task m (α × CacheStatus) := do
  if a.codec.isStorable value then
    a.store value
  else
    Task.tell .warn "computed value not cached" [("path", a.path)]
  return (value, .computed)

theorem follows_load (a : Artifact α) : Follows a.load a.load := by
  refine (Follows.isFile a.path).bind fun isFile => ?_
  cases isFile with
  | false => exact Follows.tell.bind fun _ => .pure none
  | true =>
    refine (Follows.read a.path).bind fun bytes => ?_
    cases a.codec.decode bytes with
    | error reason => exact .throw _
    | ok value => exact Follows.tell.bind fun _ => .pure _

theorem follows_store (a : Artifact α) (value : α) : Follows (a.store value) (a.store value) :=
  (Follows.makeParents a.path).bind fun _ => (Follows.write a.path _).bind fun _ => Follows.tell

theorem follows_keep (a : Artifact α) (value : α) : Follows (a.keep value) (a.keep value) := by
  unfold keep
  split
  · exact (a.follows_store value).bind fun _ => .pure _
  · exact Follows.tell.bind fun _ => .pure _

theorem follows_invalidate (a : Artifact α) : Follows a.invalidate a.invalidate := by
  refine (Follows.isFile a.path).bind fun isFile => ?_
  cases isFile with
  | false => exact .pure ()
  | true => exact (Follows.remove a.path).bind fun _ => Follows.tell

theorem loadOrCompute_eq {m : Type → Type} [Monad m] [LawfulMonad m] [Disk m] (a : Artifact α)
    (compute : Task m α) :
    a.loadOrCompute compute = a.load >>= fun found =>
      match found with
      | some value => pure (value, .hit)
      | none => compute >>= a.keep := by
  -- what comes with a computed value is nothing here, so it only says that there was one
  unfold loadOrCompute loadOrComputeWith
  rw [bind_assoc]
  refine bind_congr fun found => ?_
  cases found with
  | some value => simp only [pure_bind, CacheStatus.ofExtra]
  | none =>
    simp only [bind_assoc, pure_bind]
    refine bind_congr fun value => ?_
    unfold keep
    split <;> simp only [bind_assoc, pure_bind, CacheStatus.ofExtra]

/-- A call where there is a file gives what the file holds. -/
theorem call_of_isFile {t : Tally} (h : t.world.files.isFile a.path = true)
    (compute : Task (StateM World) α) :
    ∃ bytes, t.world.files.read a.path = .ok bytes ∧
      (a.call compute t).1 =
        (match a.codec.decode bytes with
        | .ok value => .ok (value, .hit)
        | .error reason => .error (.invalidCache a.path reason)) ∧
      (a.call compute t).2.world.files = t.world.files ∧ (a.call compute t).2.runs = t.runs := by
  obtain ⟨bytes, hread⟩ := FileTree.isFile_iff.mp h
  obtain ⟨hresult, hfiles⟩ := a.reads_load.run_world t.world
  rw [kept, FileTree.readOr_of_read hread, held] at hresult
  refine ⟨bytes, hread, ?_⟩
  -- loading counts nothing, and the computation is in the branch that is not taken
  rw [call, loadOrCompute_eq, Tally.run_bind, a.follows_load t]
  cases hdecode : a.codec.decode bytes with
  | ok value =>
    rw [hdecode] at hresult
    rw [hresult]
    exact ⟨rfl, hfiles, rfl⟩
  | error reason =>
    rw [hdecode] at hresult
    rw [hresult]
    exact ⟨rfl, hfiles, rfl⟩

/-- A call where there is no file runs the computation once, and keeps what it gives. -/
theorem call_of_absent {t : Tally} (h : t.world.files.isFile a.path = false) :
    ∃ start : World, start.files = t.world.files ∧
      ∀ compute, a.call compute t =
        ((start.run (compute >>= a.keep)).1,
          { world := (start.run (compute >>= a.keep)).2, runs := t.runs + 1 }) := by
  obtain ⟨hresult, hfiles⟩ := a.reads_load.run_world t.world
  rw [kept, FileTree.readOr_of_isFile h] at hresult
  refine ⟨_, hfiles, fun compute => ?_⟩
  rw [call, loadOrCompute_eq, Tally.run_bind, a.follows_load t, hresult]
  dsimp only
  rw [Tally.run_bind, Tally.run_counted, World.run_bind]
  cases (t.world.run a.load).2.run compute with
  | mk result w =>
    cases result with
    | error failure => rfl
    | ok value => exact a.follows_keep value _

theorem run_keep_of_not_storable (h : a.codec.isStorable value = false) (w : World) :
    ∃ events, w.run (a.keep value) = (.ok (value, .computed), ⟨w.files, events⟩) := by
  rw [keep, if_neg (by simp [h])]
  exact ⟨_, rfl⟩

theorem run_keep_of_storable {w : World} (h : a.codec.isStorable value = true)
    (hsave : (w.files.save a.path (a.codec.encode value)).1 = .ok ()) :
    ∃ events, w.run (a.keep value) =
      (.ok (value, .computed), ⟨(w.files.save a.path (a.codec.encode value)).2, events⟩) := by
  rw [keep, if_pos h, World.run_bind]
  obtain ⟨events, hrun⟩ := w.run_save a.path (a.codec.encode value) .debug "artifact stored"
    [("path", a.path), ("bytes", toString (a.codec.encode value).length)]
  rw [hsave] at hrun
  exact ⟨events, by rw [store, hrun]; rfl⟩

/-! ### What is kept -/

/-- What can happen while nothing but the artifact itself writes its file: calls, and any other
change that leaves what is read at its path. -/
inductive Undisturbed (a : Artifact α) (t : Tally) : Tally → Prop
  | now : Undisturbed a t t
  | change {u v : Tally} (h : Undisturbed a t u)
      (hread : v.world.files.read a.path = u.world.files.read a.path) : Undisturbed a t v
  | call {u : Tally} (h : Undisturbed a t u) (compute : Task (StateM World) α) :
      Undisturbed a t (a.call compute u).2

/-- Whether from now on every call gives a value from the file, and computes and changes nothing. -/
def Serves (a : Artifact α) (value : α) (t : Tally) : Prop :=
  ∀ u, a.Undisturbed t u → ∀ compute,
    (a.call compute u).1 = .ok (value, .hit) ∧ (a.call compute u).2.runs = u.runs ∧
      (a.call compute u).2.world.files = u.world.files

theorem Undisturbed.read {bytes : Bytes} {t u : Tally} (h : a.Undisturbed t u)
    (hread : t.world.files.read a.path = .ok bytes) : u.world.files.read a.path = .ok bytes := by
  induction h with
  | now => exact hread
  | change _ hsame ih => exact hsame.trans ih
  | @call u _ compute ih =>
    obtain ⟨-, -, -, hfiles, -⟩ := call_of_isFile (FileTree.isFile_iff.mpr ⟨bytes, ih⟩) compute
    rw [hfiles]
    exact ih

theorem serves_of_read {bytes : Bytes} {t : Tally} (hread : t.world.files.read a.path = .ok bytes)
    (hdecode : a.codec.decode bytes = .ok value) : a.Serves value t := by
  intro u hu compute
  have hkept := hu.read hread
  obtain ⟨found, hfound, hresult, hfiles, hruns⟩ :=
    call_of_isFile (FileTree.isFile_iff.mpr ⟨bytes, hkept⟩) compute
  obtain rfl := Except.ok.inj (hfound.symm.trans hkept)
  rw [hdecode] at hresult
  exact ⟨hresult, hruns, hfiles⟩

theorem run_invalidate (a : Artifact α) (t : Tally) :
    (t.run a.invalidate).1 = .ok () ∧ (t.run a.invalidate).2.runs = t.runs ∧
      (t.run a.invalidate).2.world.files.isFile a.path = false := by
  have htriple : Triple World (fun _ => True) a.invalidate (fun _ u => u.isFile a.path = false)
      fun _ _ => False := by
    refine triple_invalidate (fun _ _ habsent => habsent) fun u _ _ => ?_
    exact FileTree.isFile_eq_false_of_contents? (FileTree.contents?_erase_place u a.path)
  obtain ⟨⟨⟩, hresult, habsent⟩ := htriple.exists_ok (w := t.world) trivial
  rw [a.follows_invalidate t]
  exact ⟨hresult, rfl, habsent⟩

/-! ### The protocol -/

/-- How the calls for an artifact go, some of whose values can be read back once written. -/
structure Protocol (a : Artifact α) (readable : α → Prop) : Prop where
  /-- Where there is a file, nothing is computed or changed. -/
  present : ∀ (t : Tally) compute, t.world.files.isFile a.path = true →
    ∃ bytes, t.world.files.read a.path = .ok bytes ∧
      (∀ value, a.codec.decode bytes = .ok value →
        (a.call compute t).1 = .ok (value, .hit)) ∧
      (∀ reason, a.codec.decode bytes = .error reason →
        (a.call compute t).1 = .error (.invalidCache a.path reason)) ∧
      (a.call compute t).2.world.files = t.world.files ∧ (a.call compute t).2.runs = t.runs
  /-- Where there is none, the value is computed once, from the same files. It is kept if it is
  worth it, and from then on given, if it can be written and read back. -/
  absent : ∀ (t : Tally) compute, t.world.files.isFile a.path = false →
    (a.call compute t).2.runs = t.runs + 1 ∧
    ∃ start : World, start.files = t.world.files ∧
      (∀ failure, (start.run compute).1 = .error failure →
        (a.call compute t).1 = .error failure ∧
          (a.call compute t).2.world.files = (start.run compute).2.files) ∧
      (∀ value, (start.run compute).1 = .ok value → a.codec.isStorable value = false →
        (a.call compute t).1 = .ok (value, .computed) ∧
          (a.call compute t).2.world.files = (start.run compute).2.files) ∧
      ∀ value, (start.run compute).1 = .ok value → a.codec.isStorable value = true →
        let saved := (start.run compute).2.files.save a.path (a.codec.encode value)
        saved.1 = .ok () →
        (a.call compute t).1 = .ok (value, .computed) ∧
          (a.call compute t).2.world.files = saved.2 ∧
          (readable value → a.Serves value (a.call compute t).2)
  /-- What is made invalid is computed again. -/
  invalid : ∀ (t : Tally) compute, (t.run a.invalidate).1 = .ok () ∧
    (a.call compute (t.run a.invalidate).2).2.runs = t.runs + 1

theorem protocol_of_decode_encode {readable : α → Prop}
    (h : ∀ value, a.codec.isStorable value = true → readable value →
      a.codec.decode (a.codec.encode value) = .ok value) : a.Protocol readable where
  present t compute hfile := by
    obtain ⟨bytes, hread, hresult, hrest⟩ := call_of_isFile hfile compute
    refine ⟨bytes, hread, fun value hdecode => ?_, fun reason hdecode => ?_, hrest⟩
    all_goals rw [hresult, hdecode]
  absent t compute habsent := by
    obtain ⟨start, hfiles, hcall⟩ := a.call_of_absent habsent
    rw [hcall compute, World.run_bind]
    refine ⟨rfl, start, hfiles, ?_⟩
    cases start.run compute with
    | mk result w =>
      refine ⟨?_, ?_, ?_⟩
      · rintro failure rfl
        exact ⟨rfl, rfl⟩
      · rintro value rfl hstorable
        obtain ⟨events, hkeep⟩ := run_keep_of_not_storable hstorable w
        dsimp only
        rw [hkeep]
        exact ⟨rfl, rfl⟩
      · rintro value rfl hstorable saved hsave
        obtain ⟨events, hkeep⟩ := run_keep_of_storable hstorable hsave
        dsimp only
        rw [hkeep]
        refine ⟨rfl, rfl, fun hreadable => ?_⟩
        have hwritten := FileTree.written_of_save (Prod.ext hsave rfl)
        exact serves_of_read hwritten.read (h value hstorable hreadable)
  invalid t compute := by
    obtain ⟨hresult, hruns, habsent⟩ := a.run_invalidate t
    obtain ⟨start, -, hcall⟩ := a.call_of_absent habsent
    rw [hcall compute, hruns]
    exact ⟨hresult, rfl⟩

end Artifact

/-- The artifacts of an analysis keep to the protocol. What is read back is a list of methods, and
an index of methods, that can be written. -/
theorem loadOrCompute_protocol (path : String) :
    (Artifact.Protocol ⟨path, MethodList.codec⟩ fun ms => ∀ m ∈ ms, m.Conforms) ∧
      Artifact.Protocol ⟨path, Snapshot.codec⟩ Snapshot.Keeps := by
  constructor
  · refine Artifact.protocol_of_decode_encode fun ms hstorable hconforms => ?_
    have hne : ms ≠ [] := MethodList.isStorable_eq_true_iff.mp hstorable
    exact MethodList.codec_decode_eq_ok_iff.mpr (MethodList.decode_encode hne hconforms)
  · refine Artifact.protocol_of_decode_encode fun index _ hkeeps => ?_
    dsimp only
    rw [Snapshot.codec_decode, Snapshot.codec_encode, Snapshot.decode_encode hkeeps]
    rfl

-- The second call finds the list that the first one kept, and does not fail.
example :
    let a : Artifact (List Method) := ⟨"tests.json", MethodList.codec⟩
    let first := a.call (pure [.make "a.FooTest" "testRun" []]) ⟨.ofFiles .empty, 0⟩
    let second := a.call (throw (.missingArtifact "tests.json")) first.2
    first.2.runs = 1 ∧ second.2.runs = 1 ∧ (second.1.toOption.map fun r => r.2) = some .hit := by
  decide +kernel

end CallDepth
