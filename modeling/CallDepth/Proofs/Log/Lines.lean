import CallDepth.CallLog

/-!
# The lines of a log

A byte string is cut after each line feed; what is left after the last one is a line of its own
unless it is empty. There is one way to do so.
-/

namespace CallDepth.CallLog

inductive CutIntoLines : Bytes → List Bytes → Prop where
  | empty : CutIntoLines [] []
  | last {line : Bytes} (hne : line ≠ []) (hfeed : lineFeed ∉ line) : CutIntoLines line [line]
  | line {front rest : Bytes} {ls : List Bytes} (hfeed : lineFeed ∉ front)
      (hrest : CutIntoLines rest ls) :
      CutIntoLines (front ++ lineFeed :: rest) ((front ++ [lineFeed]) :: ls)

theorem linesFrom_eq_append (done : List Bytes) (line bs : Bytes) :
    linesFrom done line bs = done.reverse ++ linesFrom [] line bs := by
  induction bs generalizing done line with
  | nil =>
    unfold linesFrom
    split <;> simp
  | cons b rest ih =>
    simp only [linesFrom]
    split
    · rw [ih, ih [(b :: line).reverse]]
      simp
    · exact ih done (b :: line)

theorem linesFrom_append {front : Bytes} (hfeed : lineFeed ∉ front) (line rest : Bytes) :
    linesFrom [] line (front ++ rest) = linesFrom [] (front.reverse ++ line) rest := by
  induction front generalizing line with
  | nil => rfl
  | cons b front ih =>
    rw [List.mem_cons, not_or] at hfeed
    have hb : b ≠ lineFeed := fun h => hfeed.1 h.symm
    rw [List.cons_append, linesFrom, if_neg hb, ih hfeed.2]
    simp

theorem lines_eq_singleton {line : Bytes} (hne : line ≠ []) (hfeed : lineFeed ∉ line) :
    lines line = [line] := by
  have h := linesFrom_append hfeed [] []
  simp only [List.append_nil] at h
  rw [lines, h, linesFrom, if_neg (by simpa using hne)]
  simp

theorem lines_line {front : Bytes} (hfeed : lineFeed ∉ front) (rest : Bytes) :
    lines (front ++ lineFeed :: rest) = (front ++ [lineFeed]) :: lines rest := by
  rw [lines, linesFrom_append hfeed, linesFrom, if_pos rfl, linesFrom_eq_append]
  simp [lines]

theorem CutIntoLines.eq_lines {bs : Bytes} {ls : List Bytes} (h : CutIntoLines bs ls) :
    ls = lines bs := by
  induction h with
  | empty => rfl
  | last hne hfeed => exact (lines_eq_singleton hne hfeed).symm
  | line hfeed _ ih => rw [lines_line hfeed, ih]

theorem cutIntoLines_linesFrom {line : Bytes} (hfeed : lineFeed ∉ line) (bs : Bytes) :
    CutIntoLines (line.reverse ++ bs) (linesFrom [] line bs) := by
  induction bs generalizing line with
  | nil =>
    rw [List.append_nil, linesFrom]
    split
    · rename_i hline
      subst hline
      exact .empty
    · rename_i hline
      exact .last (by simpa using hline) (by simpa using hfeed)
  | cons b rest ih =>
    rw [linesFrom]
    split
    · rename_i hb
      subst hb
      rw [linesFrom_eq_append]
      have hrest := ih (show lineFeed ∉ ([] : Bytes) from List.not_mem_nil)
      have hfront : lineFeed ∉ line.reverse := by simpa using hfeed
      simpa using CutIntoLines.line hfront hrest
    · rename_i hb
      have hline : lineFeed ∉ b :: line := by
        rw [List.mem_cons, not_or]
        exact ⟨fun h => hb h.symm, hfeed⟩
      simpa using ih hline

theorem cutIntoLines_iff {bs : Bytes} {ls : List Bytes} : CutIntoLines bs ls ↔ ls = lines bs := by
  constructor
  · exact CutIntoLines.eq_lines
  · rintro rfl
    exact cutIntoLines_linesFrom (show lineFeed ∉ ([] : Bytes) from List.not_mem_nil) bs

theorem lines_flatMap {ls : List Bytes} (h : ∀ line ∈ ls, lineFeed ∉ line) :
    lines (ls.flatMap (· ++ [lineFeed])) = ls.map (· ++ [lineFeed]) := by
  induction ls with
  | nil => rfl
  | cons line ls ih =>
    have hline := h line (List.mem_cons_self ..)
    have hls := ih fun l hl => h l (List.mem_cons_of_mem _ hl)
    rw [List.flatMap_cons, List.append_assoc, List.singleton_append, lines_line hline, hls,
      List.map_cons]

end CallDepth.CallLog
