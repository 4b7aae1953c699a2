import CallDepth.Proofs.Record.Cuts
import CallDepth.Proofs.Text.Trim

/-!
# Reading a line

What comes of a line is settled by its characters without the line ends that close it: a line
without the marker is no record, a written record is read as what it says, and any other line is
malformed.
-/

namespace CallDepth.CallRecord

open Text

theorem afterMarker?_eq_none_iff {cs : List Char} :
    afterMarker? cs = none ↔ ¬ marker <+: cs := by
  constructor
  · rintro h ⟨rest, hrest⟩
    rw [afterMarker?_eq_some_iff.mpr hrest.symm] at h
    cases h
  · intro h
    cases hrest : afterMarker? cs with
    | none => rfl
    | some rest => exact absurd ⟨rest, (afterMarker?_eq_some_iff.mp hrest).symm⟩ h

theorem marker_isPrefix_text (f : Form) : marker <+: f.text := ⟨f.body, rfl⟩

theorem scan?_eq_none_iff {body : List Char} :
    scan? body = none ↔ ∀ f : Form, f.text ≠ marker ++ body := by
  constructor
  · intro h f hf
    rw [scan?_eq_some_iff.mpr ⟨f, List.append_cancel_left hf, rfl⟩] at h
    cases h
  · intro h
    cases hscan : scan? body with
    | none => rfl
    | some record =>
      obtain ⟨f, rfl, -⟩ := scan?_eq_some_iff.mp hscan
      exact absurd rfl (h f)

theorem parse_eq_none_iff {line : String} {lineNumber : Nat} :
    parse line lineNumber = .ok none ↔ ¬ marker <+: dropLineEnd line.toList := by
  rw [← afterMarker?_eq_none_iff]
  unfold parse
  dsimp only
  split
  · rename_i hmarker
    simp [hmarker]
  · rename_i body hmarker
    split <;> simp [hmarker]

theorem parse_eq_some_iff {line : String} {lineNumber : Nat} {record : CallRecord} :
    parse line lineNumber = .ok (some record) ↔
      ∃ f : Form, f.text = dropLineEnd line.toList ∧ f.record = record := by
  unfold parse
  dsimp only
  split
  · rename_i hmarker
    rw [afterMarker?_eq_none_iff] at hmarker
    constructor
    · intro h
      cases h
    · rintro ⟨f, hf, -⟩
      exact absurd (hf ▸ marker_isPrefix_text f) hmarker
  · rename_i body hmarker
    have hscan : (∃ f : Form, f.text = dropLineEnd line.toList ∧ f.record = record) ↔
        scan? body = some record := by
      rw [afterMarker?_eq_some_iff.mp hmarker, scan?_eq_some_iff]
      simp only [Form.text, List.append_cancel_left_eq]
    rw [hscan]
    split
    · rename_i found hfound
      simp [hfound]
    · rename_i hnone
      simp [hnone]

theorem parse_eq_error_iff {line : String} {lineNumber : Nat} {failure : Failure} :
    parse line lineNumber = .error failure ↔
      marker <+: dropLineEnd line.toList ∧ (∀ f : Form, f.text ≠ dropLineEnd line.toList) ∧
        failure = .malformedRecord lineNumber (String.ofList (dropLineEnd line.toList)) := by
  unfold parse
  dsimp only
  split
  · rename_i hmarker
    rw [afterMarker?_eq_none_iff] at hmarker
    simp [hmarker]
  · rename_i body hmarker
    have hline := afterMarker?_eq_some_iff.mp hmarker
    have hprefix : marker <+: dropLineEnd line.toList := ⟨body, hline.symm⟩
    split
    · rename_i record hscan
      obtain ⟨f, hf, -⟩ := scan?_eq_some_iff.mp hscan
      have htext : f.text = dropLineEnd line.toList := by rw [hline, Form.text, hf]
      constructor
      · intro h
        cases h
      · rintro ⟨-, hnone, -⟩
        exact absurd htext (hnone f)
    · rename_i hscan
      rw [scan?_eq_none_iff, ← hline] at hscan
      simp only [Except.error.injEq, hprefix, true_and]
      constructor
      · intro h
        exact ⟨hscan, h.symm⟩
      · rintro ⟨-, h⟩
        exact h.symm

/-- What a line is read as. Of the line without the line ends that close it, it gives nothing if the
marker is missing, and otherwise the record of its only written form, or, if it has none, the
failure that shows it with its number. However far the reading comes, the line is cut only between
characters, and a written record where its parts meet. -/
theorem parse_reads_written_form (line : String) (lineNumber : Nat) :
    let cs := dropLineEnd line.toList
    (∃ ends, line.toList = cs ++ ends ∧ ∀ c ∈ ends, c = '\r' ∨ c = '\n') ∧
    (∀ c ∈ cs.getLast?, c ≠ '\r' ∧ c ≠ '\n') ∧
    (parse line lineNumber = .ok none ↔ ¬ marker <+: cs) ∧
    (∀ record, parse line lineNumber = .ok (some record) ↔
      ∃ f : Form, f.text = cs ∧ f.record = record) ∧
    (∀ f f' : Form, f.text = cs → f'.text = cs → f = f') ∧
    (∀ failure, parse line lineNumber = .error failure ↔
      marker <+: cs ∧ (∀ f : Form, f.text ≠ cs) ∧
        failure = .malformedRecord lineNumber (String.ofList cs)) ∧
    (∀ offset ∈ cuts cs, Utf8.IsBoundary cs offset) ∧
    ∀ f : Form, f.text = cs → cuts cs = f.cuts := by
  intro cs
  refine ⟨?_, ?_, parse_eq_none_iff, fun record => parse_eq_some_iff, ?_,
    fun failure => parse_eq_error_iff, fun offset => isBoundary_of_mem_cuts, ?_⟩
  · obtain ⟨ends, hline, hends⟩ := exists_eq_dropTrailing_append isLineEnd line.toList
    refine ⟨ends, hline, fun c hc => ?_⟩
    simpa [isLineEnd] using hends c hc
  · intro c hc
    simpa [isLineEnd] using not_of_mem_getLast?_dropTrailing hc
  · intro f f' hf hf'
    exact Form.text_injective (hf.trans hf'.symm)
  · rintro f hf
    rw [← hf, cuts_text]

end CallDepth.CallRecord
