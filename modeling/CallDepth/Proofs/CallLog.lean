import CallDepth.CallLog
import CallDepth.Proofs.CallGraph

/-!
# What a call log records

The records of a log are those of its lines. Two logs that record the same calls, by the canonical
forms of caller and callee, are read into the same graph.
-/

namespace CallDepth

namespace CallRecord

def edge (record : CallRecord) : Method × Method := (record.caller, record.callee)

def call (record : CallRecord) : String × String :=
  (record.caller.canonical, record.callee.canonical)

theorem conforms_of_scan? {cs : List Char} {record : CallRecord} (h : scan? cs = some record) :
    record.caller.Conforms ∧ record.callee.Conforms := by
  simp only [scan?, bind, Option.bind_eq_some_iff] at h
  obtain ⟨⟨caller, cs₁⟩, hcaller, ⟨kind, cs₂⟩, -, ⟨callee, rest⟩, hcallee, h⟩ := h
  cases h
  exact ⟨Method.conforms_of_scan? hcaller, Method.conforms_of_scan? hcallee⟩

def ofLine? (line : Bytes) : Option CallRecord := do
  let text ← Text.Utf8.toString? line
  let rest ← afterMarker? (Text.dropLineEnd text.toList)
  scan? rest

theorem conforms_of_ofLine? {line : Bytes} {record : CallRecord} (h : ofLine? line = some record) :
    record.caller.Conforms ∧ record.callee.Conforms := by
  simp only [ofLine?, bind, Option.bind_eq_some_iff] at h
  obtain ⟨text, -, rest, -, h⟩ := h
  exact conforms_of_scan? h

end CallRecord

namespace CallLog

def records (bs : Bytes) : List CallRecord := (lines bs).filterMap CallRecord.ofLine?

/-- Whether two logs record the same calls, in whatever order and however often. -/
def SameCalls (b c : Bytes) : Prop :=
  ∀ call : String × String,
    call ∈ (records b).map CallRecord.call ↔ call ∈ (records c).map CallRecord.call

instance (b c : Bytes) : Decidable (SameCalls b c) :=
  decidable_of_iff
    ((records b).map CallRecord.call ⊆ (records c).map CallRecord.call ∧
      (records c).map CallRecord.call ⊆ (records b).map CallRecord.call)
    ⟨fun ⟨hbc, hcb⟩ _ => ⟨fun h => hbc h, fun h => hcb h⟩,
      fun h => ⟨fun _ => (h _).mp, fun _ => (h _).mpr⟩⟩

theorem Reading.graph_of_readLine {r r' : Reading} {line : Bytes} (h : r.readLine line = .ok r') :
    r'.graph = match CallRecord.ofLine? line with
      | none => r.graph
      | some record => r.graph.addRecord record := by
  unfold readLine at h
  cases htext : Text.Utf8.toString? line with
  | none => simp [htext] at h
  | some text =>
    simp only [htext, CallRecord.parse] at h
    cases hmarker : CallRecord.afterMarker? (Text.dropLineEnd text.toList) with
    | none =>
      simp only [hmarker] at h
      cases h
      simp [CallRecord.ofLine?, htext, hmarker]
    | some rest =>
      cases hscan : CallRecord.scan? rest with
      | none => simp [hmarker, hscan] at h
      | some record =>
        simp only [hmarker, hscan] at h
        cases h
        simp [CallRecord.ofLine?, htext, hmarker, hscan]

theorem Reading.graph_of_foldlM {r r' : Reading} {ls : List Bytes}
    (h : ls.foldlM readLine r = .ok r') :
    r'.graph = (ls.filterMap CallRecord.ofLine?).foldl CallGraph.addRecord r.graph := by
  induction ls generalizing r with
  | nil =>
    cases h
    rfl
  | cons line rest ih =>
    rw [List.foldlM_cons] at h
    cases hline : r.readLine line with
    | error failure =>
      rw [hline] at h
      cases h
    | ok next =>
      rw [hline] at h
      rw [ih h, graph_of_readLine hline, List.filterMap_cons]
      cases CallRecord.ofLine? line with
      | none => rfl
      | some record => rfl

theorem graph_of_read {bs : Bytes} {r : Reading} (h : read bs = .ok r) :
    r.graph = CallGraph.ofEdges ((records bs).map CallRecord.edge) := by
  rw [Reading.graph_of_foldlM h, CallGraph.ofEdges, List.foldl_map]
  rfl

theorem conforms_of_mem_records {bs : Bytes} {record : CallRecord} (h : record ∈ records bs) :
    record.caller.Conforms ∧ record.callee.Conforms := by
  obtain ⟨line, -, hline⟩ := List.mem_filterMap.mp h
  exact CallRecord.conforms_of_ofLine? hline

theorem conforms_of_mem_edges {bs : Bytes} {edge : Method × Method}
    (h : edge ∈ (records bs).map CallRecord.edge) : edge.1.Conforms ∧ edge.2.Conforms := by
  obtain ⟨record, hrecord, rfl⟩ := List.mem_map.mp h
  exact conforms_of_mem_records hrecord

theorem mem_edges_of_sameCalls {b c : Bytes} (h : SameCalls b c) {edge : Method × Method}
    (hedge : edge ∈ (records b).map CallRecord.edge) :
    edge ∈ (records c).map CallRecord.edge := by
  obtain ⟨hcaller, hcallee⟩ := conforms_of_mem_edges hedge
  have hcall : (edge.1.canonical, edge.2.canonical) ∈ (records b).map CallRecord.call := by
    obtain ⟨record, hrecord, rfl⟩ := List.mem_map.mp hedge
    exact List.mem_map_of_mem hrecord
  obtain ⟨record, hrecord, heq⟩ := List.mem_map.mp ((h _).mp hcall)
  -- what is written conforms, so the canonical forms settle the methods
  obtain ⟨hcaller', hcallee'⟩ := conforms_of_mem_records hrecord
  obtain ⟨hname, hname'⟩ := Prod.mk.inj heq
  have hedge' : record.edge = edge :=
    Prod.ext (Method.eq_of_canonical_eq hcaller' hcaller hname)
      (Method.eq_of_canonical_eq hcallee' hcallee hname')
  rw [← hedge']
  exact List.mem_map_of_mem hrecord

theorem graph_eq_of_sameCalls {b c : Bytes} {r q : Reading} (hr : read b = .ok r)
    (hq : read c = .ok q) (h : SameCalls b c) : r.graph = q.graph := by
  have hsymm : SameCalls c b := fun call => (h call).symm
  rw [graph_of_read hr, graph_of_read hq]
  apply CallGraph.ofEdges_eq_of_mem_iff fun edge => conforms_of_mem_edges
  exact fun edge => ⟨mem_edges_of_sameCalls h, mem_edges_of_sameCalls hsymm⟩

end CallLog

end CallDepth
