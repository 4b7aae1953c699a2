/-!
# Runs of characters

Cutting a text at the mark that ends a run of characters of one kind, and at every mark in it.
-/

namespace CallDepth.Text

/-- The longest run of characters with the property `p` at the front of a text, and what follows the
mark that ends it. -/
def takeRun? (p : Char → Bool) (mark : Char) (cs : List Char) : Option (List Char × List Char) :=
  match cs.dropWhile p with
  | c :: rest => if c = mark then some (cs.takeWhile p, rest) else none
  | [] => none

theorem eq_of_takeRun? {p : Char → Bool} {mark : Char} {cs run rest : List Char}
    (h : takeRun? p mark cs = some (run, rest)) :
    cs = run ++ mark :: rest ∧ ∀ c ∈ run, p c = true := by
  simp only [takeRun?] at h
  split at h
  · rename_i c tail hdrop
    by_cases hc : c = mark
    · simp only [hc, if_true, Option.some.injEq, Prod.mk.injEq] at h
      obtain ⟨rfl, rfl⟩ := h
      refine ⟨?_, fun x hx => ?_⟩
      · rw [← hc, ← hdrop, List.takeWhile_append_dropWhile]
      · exact List.all_eq_true.mp List.all_takeWhile x hx
    · simp [hc] at h
  · simp at h

theorem takeRun?_append {p : Char → Bool} {mark : Char} {run : List Char} (rest : List Char)
    (hrun : ∀ c ∈ run, p c = true) (hmark : p mark = false) :
    takeRun? p mark (run ++ mark :: rest) = some (run, rest) := by
  have hdrop : (run ++ mark :: rest).dropWhile p = mark :: rest := by
    rw [List.dropWhile_append_of_pos hrun]
    simp [hmark]
  have htake : (run ++ mark :: rest).takeWhile p = run := by
    rw [List.takeWhile_append_of_pos hrun]
    simp [hmark]
  simp only [takeRun?, hdrop, if_true, htake]

def splitOn (mark : Char) : List Char → List (List Char)
  | [] => [[]]
  | c :: rest =>
    if c = mark then [] :: splitOn mark rest
    else
      match splitOn mark rest with
      | [] => [[c]]
      | piece :: pieces => (c :: piece) :: pieces

theorem splitOn_ne_nil (mark : Char) (cs : List Char) : splitOn mark cs ≠ [] := by
  cases cs with
  | nil => simp [splitOn]
  | cons c rest =>
    simp only [splitOn]
    split
    · simp
    · split <;> simp

end CallDepth.Text
