import CallDepth.Proofs.Log.Reading
import CallDepth.Proofs.Text.Boundary

/-!
# Writing a log

A log is written of records and of remarks, which lack the marker of a record, one on a line. As long
as none of them holds a line feed, the log is read back into the graph of the calls that were written.
-/

namespace CallDepth.CallLog

open Text

/-! ### Entries -/

/-- What a line is written of. -/
inductive Entry where
  | record (form : CallRecord.Form)
  | remark (text : List Char) (unmarked : ¬ CallRecord.marker <+: text)

namespace Entry

def text : Entry → List Char
  | record form => form.text
  | remark text _ => text

def line (e : Entry) : Bytes := Utf8.encode e.text

def record? : Entry → Option CallRecord
  | record form => some form.record
  | remark _ _ => none

end Entry

def write (entries : List Entry) : Bytes :=
  (entries.map Entry.line).flatMap (· ++ [lineFeed])

/-! ### Reading a written line -/

theorem encode_append_lineFeed (cs : List Char) :
    Utf8.encode cs ++ [lineFeed] = Utf8.encode (cs ++ ['\n']) := by
  rw [Utf8.encode_append]
  rfl

theorem lineFeed_not_mem_line {e : Entry} (h : '\n' ∉ e.text) : lineFeed ∉ e.line := by
  intro hfeed
  exact h (Utf8.ofNat_mem_of_mem_encode (n := 10) (by decide) hfeed)

/-- Line ends are cut off what follows a written record, never off the record. -/
theorem exists_form_dropLineEnd (f : CallRecord.Form) (ends : List Char) :
    ∃ f' : CallRecord.Form, f'.text = dropLineEnd (f.text ++ ends) ∧ f'.record = f.record := by
  refine ⟨{ f with tail := dropLineEnd (f.tail ++ ends) }, ?_, rfl⟩
  let front := CallRecord.marker ++ (f.caller.text ++ (f.separator.text ++
    (f.callee.declaringType ++ ':' :: (f.callee.name ++ '(' :: f.callee.params))))
  have htext : ∀ tail, ({ f with tail } : CallRecord.Form).text = front ++ ')' :: tail := by
    intro tail
    simp [CallRecord.Form.text, CallRecord.Form.body, Method.Form.text, front]
  have hf : f.text ++ ends = front ++ ')' :: (f.tail ++ ends) := by
    simpa using congrArg (· ++ ends) (htext f.tail)
  -- the parenthesis that closes the callee is no line end, so nothing before it is cut off
  have hdrop : dropLineEnd (front ++ ')' :: (f.tail ++ ends)) =
      front ++ ')' :: dropLineEnd (f.tail ++ ends) := dropTrailing_append_cons (by decide) ..
  rw [hf, hdrop, htext]

theorem not_marker_isPrefix_dropLineEnd {text : List Char}
    (unmarked : ¬ CallRecord.marker <+: text) :
    ¬ CallRecord.marker <+: dropLineEnd (text ++ ['\n']) := by
  have hends : ∀ c ∈ ['\n'], isLineEnd c = true := by simp [isLineEnd]
  have hdrop : dropLineEnd (text ++ ['\n']) = dropLineEnd text :=
    dropTrailing_append_of_all text hends
  rw [hdrop]
  exact fun h => unmarked (h.trans (dropTrailing_isPrefix _ text))

theorem records_line_iff {e : Entry} {record : CallRecord} :
    Records (e.line ++ [lineFeed]) record ↔ e.record? = some record := by
  rw [Entry.line, encode_append_lineFeed]
  cases e with
  | record form =>
    obtain ⟨form', htext', hrecord'⟩ := exists_form_dropLineEnd form ['\n']
    constructor
    · rintro ⟨cs, f, hcs, htext, rfl⟩
      rw [← Utf8.encode_injective hcs] at htext
      rw [CallRecord.Form.text_injective (htext.trans htext'.symm)]
      exact congrArg some hrecord'.symm
    · intro h
      cases h
      exact ⟨_, form', rfl, htext', hrecord'⟩
  | remark text unmarked =>
    constructor
    · rintro ⟨cs, f, hcs, htext, rfl⟩
      rw [← Utf8.encode_injective hcs] at htext
      have hmarker := htext ▸ CallRecord.marker_isPrefix_text f
      exact absurd hmarker (not_marker_isPrefix_dropLineEnd unmarked)
    · intro h
      cases h

theorem not_offends_line (e : Entry) (shown : List Char) :
    ¬ Offends (e.line ++ [lineFeed]) shown := by
  rw [Entry.line, encode_append_lineFeed]
  intro h
  cases h with
  | notText hnot => exact hnot _ rfl
  | malformed hcs hmarker hform =>
    rw [← Utf8.encode_injective hcs] at hmarker hform
    cases e with
    | record form =>
      obtain ⟨form', htext', -⟩ := exists_form_dropLineEnd form ['\n']
      exact hform form' htext'
    | remark text unmarked => exact not_marker_isPrefix_dropLineEnd unmarked hmarker

/-! ### Reading a written log -/

theorem lines_write {entries : List Entry} (hfeed : ∀ e ∈ entries, '\n' ∉ e.text) :
    lines (write entries) = entries.map fun e => e.line ++ [lineFeed] := by
  have hlines : ∀ line ∈ entries.map Entry.line, lineFeed ∉ line := by
    intro line hline
    obtain ⟨e, he, rfl⟩ := List.mem_map.mp hline
    exact lineFeed_not_mem_line (hfeed e he)
  rw [write, lines_flatMap hlines, List.map_map]
  rfl

theorem exists_read_write {entries : List Entry} (hfeed : ∀ e ∈ entries, '\n' ∉ e.text) :
    ∃ r, read (write entries) = .ok r := by
  rw [exists_read_eq_ok_iff, lines_write hfeed]
  intro line hline shown
  obtain ⟨e, -, rfl⟩ := List.mem_map.mp hline
  exact not_offends_line e shown

theorem hasCall_iff_of_read_write {entries : List Entry} {r : Reading}
    (hfeed : ∀ e ∈ entries, '\n' ∉ e.text) (h : read (write entries) = .ok r)
    {caller callee : Method} :
    r.graph.HasCall caller callee ↔
      ∃ form, .record form ∈ entries ∧ form.record.caller.canonical = caller.canonical ∧
        form.record.callee.canonical = callee.canonical := by
  rw [hasCall_iff_of_read h, lines_write hfeed]
  constructor
  · rintro ⟨line, hline, record, hrecord, hnames⟩
    obtain ⟨e, he, rfl⟩ := List.mem_map.mp hline
    rw [records_line_iff] at hrecord
    cases e with
    | record form =>
      cases hrecord
      exact ⟨form, he, hnames⟩
    | remark text unmarked => cases hrecord
  · rintro ⟨form, hform, hnames⟩
    exact ⟨_, List.mem_map_of_mem hform, form.record, records_line_iff.mpr rfl, hnames⟩

/-- What a log is read as. Cut into lines in the only way, it has a graph exactly if no line offends,
and the graph has the calls that the lines record, in rows for those who make them; otherwise the
failure shows the first line that offends, with its number. A log of entries without line feeds is
read back into the calls of its records. -/
theorem graph_of_lines (bs : Bytes) :
    (∀ ls, CutIntoLines bs ls ↔ ls = lines bs) ∧
    ((∃ g, graph bs = .ok g) ↔ ∀ line ∈ lines bs, ∀ shown, ¬ Offends line shown) ∧
    (∀ g, graph bs = .ok g → ∀ caller,
      (∀ callee, g.HasCall caller callee ↔
        ∃ line ∈ lines bs, ∃ record, Records line record ∧
          record.caller.canonical = caller.canonical ∧
          record.callee.canonical = callee.canonical) ∧
      (g.callees? caller = none ↔
        ∀ line ∈ lines bs, ∀ record, Records line record →
          record.caller.canonical ≠ caller.canonical)) ∧
    (∀ failure, graph bs = .error failure ↔
      ∃ before line after shown, lines bs = before ++ line :: after ∧
        (∀ l ∈ before, ∀ shown, ¬ Offends l shown) ∧ Offends line shown ∧
        failure = .malformedRecord (before.length + 1) (String.ofList shown)) ∧
    ∀ entries, bs = write entries → (∀ e ∈ entries, '\n' ∉ e.text) →
      ∃ g, graph bs = .ok g ∧ ∀ caller callee,
        g.HasCall caller callee ↔
          ∃ form, .record form ∈ entries ∧ form.record.caller.canonical = caller.canonical ∧
            form.record.callee.canonical = callee.canonical := by
  refine ⟨fun ls => cutIntoLines_iff, ?_, ?_, ?_, ?_⟩
  · rw [← exists_read_eq_ok_iff]
    simp only [graph_eq_ok_iff]
    constructor
    · rintro ⟨_, r, hr, -⟩
      exact ⟨r, hr⟩
    · rintro ⟨r, hr⟩
      exact ⟨r.graph, r, hr, rfl⟩
  · intro g hg caller
    obtain ⟨r, hr, rfl⟩ := graph_eq_ok_iff.mp hg
    exact ⟨fun callee => hasCall_iff_of_read hr, callees?_eq_none_iff_of_read hr⟩
  · intro failure
    rw [graph_eq_error_iff, read_eq_error_iff]
  · rintro entries rfl hfeed
    obtain ⟨r, hr⟩ := exists_read_write hfeed
    exact ⟨r.graph, graph_eq_ok_iff.mpr ⟨r, hr, rfl⟩, fun _ _ => hasCall_iff_of_read_write hfeed hr⟩

end CallDepth.CallLog
