import CallDepth.Files.FileTree

/-!
# Where paths lead

The place that a path names if all of its steps can be taken, and the locations at which they are
taken. A path leads to its place or nowhere.
-/

namespace CallDepth

namespace Path

/-! ### Places -/

def Step.follow (loc : Location) : Step → Location
  | .here => loc
  | .up => loc.dropLast
  | .down name => loc ++ [name]

/-- Where a path leads from a working directory, if all of its steps can be taken. -/
def place (dir : Location) (path : String) : Location :=
  (steps path).foldl Step.follow (if isAbsolute path then [] else dir)

theorem foldl_fullSteps (loc : Location) (path : String) :
    (fullSteps path).foldl Step.follow loc = (steps path).foldl Step.follow loc := by
  unfold fullSteps
  split
  · rw [List.foldl_append]
    rfl
  · rfl

/-! ### Ways -/

/-- The locations at which steps are taken, which must all be directories. -/
def wayFrom (start : Location) : List Step → List Location
  | [] => []
  | step :: rest => start :: wayFrom (step.follow start) rest

def way (dir : Location) (path : String) : List Location :=
  wayFrom (if isAbsolute path then [] else dir) (steps path)

/-- Whether neither a path's way nor its end lies at or below a spot. -/
def Bypasses (spot dir : Location) (path : String) : Prop :=
  ∀ loc ∈ place dir path :: way dir path, ¬ spot <+: loc

instance (spot dir : Location) (path : String) : Decidable (Bypasses spot dir path) :=
  inferInstanceAs (Decidable (∀ _ ∈ _, _))

theorem wayFrom_append (start : Location) (front rest : List Step) :
    wayFrom start (front ++ rest) =
      wayFrom start front ++ wayFrom (front.foldl Step.follow start) rest := by
  induction front generalizing start with
  | nil => rfl
  | cons step front ih => simp only [List.cons_append, wayFrom, ih, List.foldl_cons]

/-- The steps that stay do not lead anywhere else. -/
theorem wayFrom_moves_subset (start : Location) (steps : List Step) :
    wayFrom start (steps.filter (· ≠ .here)) ⊆ wayFrom start steps := by
  induction steps generalizing start with
  | nil => exact List.Subset.refl _
  | cons step rest ih =>
    by_cases hhere : step = .here
    · subst hhere
      exact List.Subset.trans (ih start) (List.subset_cons_self _ _)
    · rw [List.filter_cons_of_pos (by simpa using hhere)]
      exact List.cons_subset_cons start (ih (step.follow start))

theorem way_subset (dir : Location) (path : String) :
    way dir path ⊆ wayFrom (if isAbsolute path then [] else dir) (fullSteps path) := by
  unfold way
  by_cases hclosed : isClosed path = true
  · rw [fullSteps, if_pos hclosed, wayFrom_append]
    exact List.subset_append_left _ _
  · rw [fullSteps, if_neg hclosed]
    exact List.Subset.refl _

end Path

/-! ### Following paths -/

namespace FileTree

theorem eq_of_walk {t : FileTree} {start loc : Location} {steps : List Path.Step}
    (h : t.walk start steps = .ok loc) : loc = steps.foldl Path.Step.follow start := by
  induction steps generalizing start with
  | nil =>
    cases h
    rfl
  | cons step rest ih =>
    unfold walk at h
    split at h
    · cases h
    · cases h
    · cases step with
      | here => exact ih h
      | up => exact ih h
      | down name => exact ih h

theorem eq_place_of_locate {t : FileTree} {path : String} {loc : Location}
    (h : t.locate path = .ok loc) : loc = Path.place t.workingDirectory path := by
  unfold locate at h
  split at h
  · cases h
  · rw [eq_of_walk h, Path.foldl_fullSteps]
    rfl

theorem eq_place_of_target {t : FileTree} {path : String} {loc : Location}
    (h : t.target path = .ok loc) : loc = Path.place t.workingDirectory path := by
  unfold target at h
  split at h
  · cases h
  · split at h
    · cases h
    · rename_i loc' hwalk
      split at h
      · cases h
      · split at h
        · cases h
        · cases h
          exact eq_of_walk hwalk

end FileTree

end CallDepth
