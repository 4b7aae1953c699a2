import CallDepth.Proofs.CallLog
import CallDepth.Proofs.Log.Lines
import CallDepth.Proofs.Record.Parse

/-!
# Reading a log

A log is read line by line. It is refused at the first line that offends, and otherwise its graph
has exactly the calls that its lines record. A log that is written line by line is never refused.
-/

namespace CallDepth.CallLog

open Text

/-! ### What a line says -/

/-- Whether a line cannot be read, and the text that it is then reported with. -/
inductive Offends (line : Bytes) : List Char → Prop where
  | notText (h : ∀ cs, line ≠ Utf8.encode cs) : Offends line (dropLineEnd (Utf8.decodeLenient line))
  | malformed {cs : List Char} (h : line = Utf8.encode cs)
      (hmarker : CallRecord.marker <+: dropLineEnd cs)
      (hform : ∀ f : CallRecord.Form, f.text ≠ dropLineEnd cs) : Offends line (dropLineEnd cs)

/-- Whether a line is the text of a record. -/
def Records (line : Bytes) (record : CallRecord) : Prop :=
  ∃ (cs : List Char) (f : CallRecord.Form),
    line = Utf8.encode cs ∧ f.text = dropLineEnd cs ∧ f.record = record

theorem ofLine?_eq_some_iff {line : Bytes} {record : CallRecord} :
    CallRecord.ofLine? line = some record ↔ Records line record := by
  simp only [CallRecord.ofLine?, bind, Option.bind_eq_some_iff, Utf8.toString?_eq_some_iff,
    CallRecord.afterMarker?_eq_some_iff, CallRecord.scan?_eq_some_iff, Records, Utf8.ofString]
  constructor
  · rintro ⟨text, hline, _, hbody, f, rfl, hf⟩
    exact ⟨text.toList, f, hline, hbody.symm, hf⟩
  · rintro ⟨cs, f, hline, htext, hf⟩
    refine ⟨String.ofList cs, by rw [String.toList_ofList, hline], f.body, ?_, f, rfl, hf⟩
    rw [String.toList_ofList, ← htext]
    rfl

theorem mem_records_iff {bs : Bytes} {record : CallRecord} :
    record ∈ records bs ↔ ∃ line ∈ lines bs, Records line record := by
  simp only [records, List.mem_filterMap, ofLine?_eq_some_iff]

/-! ### Reading the lines one by one -/

namespace Reading

theorem readLine_eq_error_iff {r : Reading} {line : Bytes} {failure : Failure} :
    r.readLine line = .error failure ↔
      ∃ shown, Offends line shown ∧
        failure = .malformedRecord (r.lines + 1) (String.ofList shown) := by
  unfold readLine
  dsimp only
  cases htext : Utf8.toString? line with
  | none =>
    have hnot : ∀ cs, line ≠ Utf8.encode cs := by
      rintro cs rfl
      have hsome : Utf8.toString? (Utf8.encode cs) = some (String.ofList cs) := by
        rw [Utf8.toString?_eq_some_iff, Utf8.ofString, String.toList_ofList]
      rw [hsome] at htext
      cases htext
    simp only [Except.error.injEq]
    constructor
    · rintro rfl
      exact ⟨_, .notText hnot, rfl⟩
    · rintro ⟨shown, hshown, rfl⟩
      cases hshown with
      | notText => rfl
      | malformed h => exact absurd h (hnot _)
  | some text =>
    obtain rfl : line = Utf8.encode text.toList := Utf8.toString?_eq_some_iff.mp htext
    have hparse : (∃ shown, Offends (Utf8.encode text.toList) shown ∧
          failure = .malformedRecord (r.lines + 1) (String.ofList shown)) ↔
        CallRecord.parse text (r.lines + 1) = .error failure := by
      rw [CallRecord.parse_eq_error_iff]
      constructor
      · rintro ⟨shown, hshown, rfl⟩
        cases hshown with
        | notText h => exact absurd rfl (h _)
        | malformed h hmarker hform =>
          rw [← Utf8.encode_injective h] at hmarker hform
          rw [← Utf8.encode_injective h]
          exact ⟨hmarker, hform, rfl⟩
      · rintro ⟨hmarker, hform, rfl⟩
        exact ⟨_, .malformed rfl hmarker hform, rfl⟩
    rw [hparse]
    dsimp only
    cases CallRecord.parse text (r.lines + 1) with
    | error failure' => simp
    | ok record => cases record <;> simp

theorem lines_of_readLine {r r' : Reading} {line : Bytes} (h : r.readLine line = .ok r') :
    r'.lines = r.lines + 1 := by
  unfold readLine at h
  dsimp only at h
  split at h
  · cases h
  · split at h
    · cases h
    · cases h
      rfl
    · cases h
      rfl

/-- The reading stops at the first line that offends, with the number of lines up to it. -/
theorem foldlM_eq_error_iff {ls : List Bytes} {r : Reading} {failure : Failure} :
    ls.foldlM readLine r = .error failure ↔
      ∃ before line after shown, ls = before ++ line :: after ∧
        (∀ l ∈ before, ∀ shown, ¬ Offends l shown) ∧ Offends line shown ∧
        failure = .malformedRecord (r.lines + before.length + 1) (String.ofList shown) := by
  induction ls generalizing r with
  | nil =>
    constructor
    · intro h
      cases h
    · rintro ⟨before, line, after, shown, hls, -⟩
      simp at hls
  | cons l ls ih =>
    rw [List.foldlM_cons]
    cases hl : r.readLine l with
    | error failure' =>
      -- the first line offends, so no line stands before the one that is reported
      obtain ⟨shown', hshown', rfl⟩ := readLine_eq_error_iff.mp hl
      constructor
      · intro h
        cases h
        exact ⟨[], l, ls, shown', rfl, nofun, hshown', rfl⟩
      · rintro ⟨before, line, after, shown, hls, hbefore, hshown, rfl⟩
        cases before with
        | nil =>
          cases hls
          exact hl.symm.trans (readLine_eq_error_iff.mpr ⟨shown, hshown, rfl⟩)
        | cons first before =>
          cases hls
          exact absurd hshown' (hbefore _ (List.mem_cons_self ..) shown')
    | ok next =>
      -- the first line is fine and counted, so the one that is reported is among the others
      have hfine : ∀ shown, ¬ Offends l shown := by
        intro shown hshown
        rw [readLine_eq_error_iff.mpr ⟨shown, hshown, rfl⟩] at hl
        cases hl
      have hnext := lines_of_readLine hl
      refine ih.trans ?_
      constructor
      · rintro ⟨before, line, after, shown, rfl, hbefore, hshown, rfl⟩
        refine ⟨l :: before, line, after, shown, rfl, ?_, hshown, ?_⟩
        · intro first hfirst
          rcases List.mem_cons.mp hfirst with rfl | hfirst
          · exact hfine
          · exact hbefore first hfirst
        · rw [hnext, List.length_cons]
          congr 1
          omega
      · rintro ⟨before, line, after, shown, hls, hbefore, hshown, rfl⟩
        cases before with
        | nil =>
          cases hls
          exact absurd hshown (hfine shown)
        | cons first before =>
          cases hls
          refine ⟨before, line, after, shown, rfl, ?_, hshown, ?_⟩
          · exact fun l hl => hbefore l (List.mem_cons_of_mem _ hl)
          · rw [hnext, List.length_cons]
            congr 1
            omega

end Reading

theorem read_eq_error_iff {bs : Bytes} {failure : Failure} :
    read bs = .error failure ↔
      ∃ before line after shown, lines bs = before ++ line :: after ∧
        (∀ l ∈ before, ∀ shown, ¬ Offends l shown) ∧ Offends line shown ∧
        failure = .malformedRecord (before.length + 1) (String.ofList shown) := by
  rw [read, Reading.foldlM_eq_error_iff]
  simp only [Reading.empty, Nat.zero_add]

theorem exists_first {α : Type} {p : α → Prop} {xs : List α} (h : ∃ x ∈ xs, p x) :
    ∃ before x after, xs = before ++ x :: after ∧ (∀ y ∈ before, ¬ p y) ∧ p x := by
  classical
  have hsome : (xs.find? (decide <| p ·)).isSome = true := by simpa using h
  obtain ⟨x, hx⟩ := Option.isSome_iff_exists.mp hsome
  obtain ⟨hpx, before, after, hxs, hbefore⟩ := List.find?_eq_some_iff_append.mp hx
  exact ⟨before, x, after, hxs, by simpa using hbefore, by simpa using hpx⟩

theorem exists_read_eq_ok_iff {bs : Bytes} :
    (∃ r, read bs = .ok r) ↔ ∀ line ∈ lines bs, ∀ shown, ¬ Offends line shown := by
  constructor
  · rintro ⟨r, hr⟩ line hline shown hshown
    obtain ⟨before, first, after, hls, hbefore, shown', hshown'⟩ :=
      exists_first (p := fun l => ∃ shown, Offends l shown) ⟨line, hline, shown, hshown⟩
    have herror := read_eq_error_iff.mpr
      ⟨before, first, after, shown', hls, fun l hl s hs => hbefore l hl ⟨s, hs⟩, hshown', rfl⟩
    rw [hr] at herror
    cases herror
  · intro h
    cases hread : read bs with
    | ok r => exact ⟨r, rfl⟩
    | error failure =>
      obtain ⟨before, line, after, shown, hls, -, hshown, -⟩ := read_eq_error_iff.mp hread
      exact absurd hshown (h line (by simp [hls]) shown)

theorem graph_eq_ok_iff {bs : Bytes} {g : CallGraph} :
    graph bs = .ok g ↔ ∃ r, read bs = .ok r ∧ r.graph = g := by
  cases hread : read bs <;> simp [graph, hread, Except.map]

theorem graph_eq_error_iff {bs : Bytes} {failure : Failure} :
    graph bs = .error failure ↔ read bs = .error failure := by
  cases hread : read bs <;> simp [graph, hread, Except.map]

theorem hasCall_iff_of_read {bs : Bytes} {r : Reading} (h : read bs = .ok r)
    {caller callee : Method} :
    r.graph.HasCall caller callee ↔
      ∃ line ∈ lines bs, ∃ record, Records line record ∧
        record.caller.canonical = caller.canonical ∧
        record.callee.canonical = callee.canonical := by
  rw [graph_of_read h, CallGraph.hasCall_ofEdges_iff]
  simp only [List.mem_map, mem_records_iff, exists_exists_and_eq_and, CallRecord.edge]
  constructor
  · rintro ⟨record, ⟨line, hline, hrecord⟩, hnames⟩
    exact ⟨line, hline, record, hrecord, hnames⟩
  · rintro ⟨line, hline, record, hrecord, hnames⟩
    exact ⟨record, ⟨line, hline, hrecord⟩, hnames⟩

theorem callees?_eq_none_iff_of_read {bs : Bytes} {r : Reading} (h : read bs = .ok r)
    {caller : Method} :
    r.graph.callees? caller = none ↔
      ∀ line ∈ lines bs, ∀ record, Records line record →
        record.caller.canonical ≠ caller.canonical := by
  rw [graph_of_read h, CallGraph.callees?_ofEdges_eq_none_iff]
  simp only [List.mem_map, mem_records_iff, CallRecord.edge]
  constructor
  · intro hnone line hline record hrecord
    exact hnone _ ⟨record, ⟨line, hline, hrecord⟩, rfl⟩
  · rintro hnone _ ⟨record, ⟨line, hline, hrecord⟩, rfl⟩
    exact hnone line hline record hrecord

end CallDepth.CallLog
