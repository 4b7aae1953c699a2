import Mathlib.Data.List.TakeWhile
import CallDepth.Text.Trim

/-!
# What is cut off a text

Cutting off the run of some kind of character at the end leaves a text that does not end in one.
Trimming leaves the one text that has no blank at either end and only blanks around it.
-/

namespace CallDepth.Text

variable {p : Char → Bool}

theorem exists_eq_dropTrailing_append (p : Char → Bool) (cs : List Char) :
    ∃ run, cs = dropTrailing p cs ++ run ∧ ∀ c ∈ run, p c = true := by
  refine ⟨_, (dropTrailing_append_run p cs).symm, ?_⟩
  intro c hc
  exact List.all_eq_true.mp List.all_takeWhile c (List.mem_reverse.mp hc)

theorem not_of_mem_getLast?_dropTrailing {cs : List Char} {c : Char}
    (h : c ∈ (dropTrailing p cs).getLast?) : p c = false := by
  rw [dropTrailing, List.getLast?_reverse, Option.mem_def] at h
  have hnot := List.head?_dropWhile_not p cs.reverse
  rw [h] at hnot
  exact hnot

theorem dropTrailing_append_cons {c : Char} (hc : p c = false) (cs ds : List Char) :
    dropTrailing p (cs ++ c :: ds) = cs ++ c :: dropTrailing p ds := by
  have hback : (c :: cs.reverse).dropWhile p = c :: cs.reverse := by simp [hc]
  simp only [dropTrailing, List.reverse_append, List.reverse_cons, List.append_assoc,
    List.singleton_append, List.dropWhile_append, hback]
  split
  · rename_i hempty
    rw [List.isEmpty_iff.mp hempty]
    simp
  · simp

theorem dropTrailing_append_of_all {ends : List Char} (cs : List Char)
    (h : ∀ c ∈ ends, p c = true) : dropTrailing p (cs ++ ends) = dropTrailing p cs := by
  have hback : ∀ c ∈ ends.reverse, p c = true := fun c hc => h c (List.mem_reverse.mp hc)
  rw [dropTrailing, List.reverse_append, List.dropWhile_append_of_pos hback, dropTrailing]

theorem dropTrailing_isPrefix (p : Char → Bool) (cs : List Char) : dropTrailing p cs <+: cs := by
  obtain ⟨run, hcs, -⟩ := exists_eq_dropTrailing_append p cs
  exact ⟨run, hcs.symm⟩

theorem dropTrailing_eq_self {cs : List Char} (h : ∀ c ∈ cs.getLast?, p c = false) :
    dropTrailing p cs = cs := by
  rw [List.getLast?_eq_head?_reverse] at h
  rw [dropTrailing]
  cases hback : cs.reverse with
  | nil => simpa using hback.symm
  | cons c back =>
    rw [hback] at h
    rw [List.dropWhile_cons_of_neg (by simp [h c rfl]), ← hback, List.reverse_reverse]

/-! ### Both ends -/

/-- Whether a text is another one with blanks around it, and that one has none at its ends. -/
structure TrimsTo (cs body : List Char) : Prop where
  exists_blanks : ∃ front back, cs = front ++ (body ++ back) ∧
    (∀ c ∈ front, isBlank c = true) ∧ ∀ c ∈ back, isBlank c = true
  not_isBlank_head : ∀ c ∈ body.head?, isBlank c = false
  not_isBlank_getLast : ∀ c ∈ body.getLast?, isBlank c = false

theorem trimsTo_trim (cs : List Char) : TrimsTo cs (trim cs) := by
  obtain ⟨back, hback, hblanks⟩ := exists_eq_dropTrailing_append isBlank (cs.dropWhile isBlank)
  rw [← trim] at hback
  refine ⟨⟨cs.takeWhile isBlank, back, ?_, ?_, hblanks⟩, ?_, ?_⟩
  · rw [← hback, List.takeWhile_append_dropWhile]
  · exact fun c hc => List.all_eq_true.mp List.all_takeWhile c hc
  · intro c hc
    -- what is left starts with the character that ended the blanks at the front
    obtain ⟨body, hbody⟩ := List.head?_eq_some_iff.mp hc
    have hnot := List.head?_dropWhile_not isBlank cs
    rw [hback, hbody] at hnot
    exact hnot
  · exact fun c hc => not_of_mem_getLast?_dropTrailing hc

theorem TrimsTo.trim_eq {cs body : List Char} (h : TrimsTo cs body) : trim cs = body := by
  obtain ⟨front, back, rfl, hfront, hback⟩ := h.exists_blanks
  rw [trim, List.dropWhile_append_of_pos hfront]
  cases body with
  | nil =>
    rw [List.nil_append, List.dropWhile_eq_nil_iff.mpr hback]
    rfl
  | cons c body =>
    have hc : ¬ isBlank c = true := by simp [h.not_isBlank_head c rfl]
    rw [List.cons_append, List.dropWhile_cons_of_neg hc, ← List.cons_append,
      dropTrailing_append_of_all _ hback, dropTrailing_eq_self h.not_isBlank_getLast]

theorem trim_eq_iff {cs body : List Char} : trim cs = body ↔ TrimsTo cs body := by
  constructor
  · rintro rfl
    exact trimsTo_trim cs
  · exact TrimsTo.trim_eq

end CallDepth.Text
