import CallDepth.Proofs.CallIndex
import CallDepth.Proofs.Log.Reading
import CallDepth.Proofs.Reach.Levels
import CallDepth.Proofs.Store.Snapshot

/-!
# Sizes

Nothing that is made of a log is larger than the log: neither the number of its records, nor the name
of a method in them, nor what a method reaches. So where the length of the log is a word, the index
of some of its methods can be kept.
-/

namespace CallDepth

open Text

/-! ### Edges -/

namespace CallGraph

variable {edges : List (Method × Method)}

theorem exists_edge_of_mem_calleeNames {name : String}
    (h : name ∈ Reach.calleeNames (ofEdges edges)) : ∃ edge ∈ edges, edge.2.canonical = name := by
  obtain ⟨⟨caller, row⟩, hrow, hname⟩ := List.mem_flatMap.mp h
  rw [Std.ExtTreeMap.mem_toList_iff_getElem?_eq_some, getElem?_ofEdges] at hrow
  dsimp only at hname
  rw [(mem_of_rowOf? hrow).2, ← MethodSet.map_canonical_toList] at hname
  obtain ⟨m, hm, rfl⟩ := List.mem_map.mp hname
  obtain ⟨edge, hedge, rfl⟩ := List.mem_map.mp (MethodSet.mem_of_mem_toList_ofList hm)
  exact ⟨edge, List.mem_of_mem_filter hedge, rfl⟩

theorem length_callers_ofEdges_le (edges : List (Method × Method)) :
    (ofEdges edges).callers.length ≤ edges.length := by
  induction edges using List.reverseRecOn with
  | nil => simp [ofEdges, empty, callers]
  | append_singleton edges edge ih =>
    rw [length_callers, callerCount] at ih ⊢
    have hinsert : ((ofEdges edges).addEdge edge.1 edge.2).rows.size ≤
        (ofEdges edges).rows.size + 1 := Std.ExtTreeMap.size_insert_le
    rw [ofEdges_append_singleton, List.length_append, List.length_singleton]
    omega

end CallGraph

/-! ### Lines -/

namespace CallLog

variable {bs line : Bytes} {record : CallRecord}

theorem CutIntoLines.length_le {ls : List Bytes} (h : CutIntoLines bs ls) :
    ls.length ≤ bs.length := by
  induction h with
  | empty => exact Nat.le_refl 0
  | last hne _ => exact List.length_pos_of_ne_nil hne
  | line _ _ ih =>
    rw [List.length_cons, List.length_append, List.length_cons]
    omega

theorem length_records_le (bs : Bytes) : (records bs).length ≤ bs.length :=
  Nat.le_trans (List.length_filterMap_le ..) (cutIntoLines_iff.mpr rfl).length_le

theorem length_line_le (h : line ∈ lines bs) : line.length ≤ bs.length := by
  have hsub := (List.sublist_flatten_of_mem h).length_le
  rwa [flatten_lines] at hsub

theorem length_encode_le_of_isInfix {cs ds : List Char} (h : cs <:+: ds) :
    (Utf8.encode cs).length ≤ (Utf8.encode ds).length := by
  obtain ⟨front, rest, rfl⟩ := h
  rw [Utf8.encode_append, Utf8.encode_append, List.length_append, List.length_append]
  omega

/-- Both names in a record stand in its line. -/
theorem Records.isInfix (h : Records line record) :
    ∃ cs, line = Utf8.encode cs ∧ record.caller.canonical.toList <:+: cs ∧
      record.callee.canonical.toList <:+: cs := by
  obtain ⟨cs, f, hline, htext, rfl⟩ := h
  have hcs : f.text <:+: cs := by
    rw [htext]
    exact (dropTrailing_isPrefix _ cs).isInfix
  refine ⟨cs, hline, .trans ?_ hcs, .trans ?_ hcs⟩
  · change f.caller.method.canonical.toList <:+: _
    rw [f.caller.toList_canonical]
    exact ⟨CallRecord.marker, _, (List.append_assoc ..)⟩
  · change f.callee.method.canonical.toList <:+: _
    rw [f.callee.toList_canonical]
    exact ⟨CallRecord.marker ++ (f.caller.text ++ f.separator.text), f.tail,
      by simp [CallRecord.Form.text, CallRecord.Form.body]⟩

theorem length_canonical_le (h : record ∈ records bs) :
    (Utf8.ofString record.caller.canonical).length ≤ bs.length ∧
      (Utf8.ofString record.callee.canonical).length ≤ bs.length := by
  obtain ⟨line, hline, hrecord⟩ := mem_records_iff.mp h
  obtain ⟨cs, rfl, hcaller, hcallee⟩ := hrecord.isInfix
  have hle := length_line_le hline
  exact ⟨(length_encode_le_of_isInfix hcaller).trans hle,
    (length_encode_le_of_isInfix hcallee).trans hle⟩

end CallLog

/-! ### Graphs and indexes -/

/-- Whether a method can be kept: its name can be read, and the length of the name is a word. -/
def Method.Keeps (m : Method) : Prop := m.Conforms ∧ Snapshot.Fits m.canonical

theorem Method.Keeps.names {m : Method} (h : m.Keeps) : Snapshot.Names m.canonical :=
  ⟨h.2, isSome_parse?_canonical h.1⟩

/-- Whether a list of methods can be kept with an index of them. -/
def KeepsTests (tests : List Method) : Prop :=
  tests.length < wordCount ∧ ∀ m ∈ tests, m.Keeps

/-- Whether all that is made of a graph can be kept. -/
structure CallGraph.Keeps (g : CallGraph) : Prop where
  callers : KeepsTests g.callers
  /-- The callees are named in a list whose length is a word. -/
  callees : ∃ names : List String, Reach.calleeNames g ⊆ names ∧ names.length < wordCount ∧
    ∀ name ∈ names, Snapshot.Names name

theorem KeepsTests.sublist {tests more : List Method} (h : KeepsTests more)
    (hsub : tests.Sublist more) : KeepsTests tests :=
  ⟨hsub.length_le.trans_lt h.1, fun m hm => h.2 m (hsub.subset hm)⟩

theorem CallLog.conforms_of_mem_callers {bs : Bytes} {g : CallGraph} (h : graph bs = .ok g)
    {m : Method} (hm : m ∈ g.callers) : m.Conforms := by
  obtain ⟨r, hread, rfl⟩ := graph_eq_ok_iff.mp h
  rw [graph_of_read hread] at hm
  obtain ⟨edge, hedge, rfl⟩ := CallGraph.exists_edge_of_mem_callers hm
  exact (conforms_of_mem_edges hedge).1

theorem CallLog.keeps_graph {bs : Bytes} {g : CallGraph} (h : graph bs = .ok g)
    (hbs : bs.length < wordCount) : g.Keeps := by
  obtain ⟨r, hread, rfl⟩ := graph_eq_ok_iff.mp h
  have hcount := (length_records_le bs).trans_lt hbs
  have hkeeps : ∀ edge ∈ (records bs).map CallRecord.edge, edge.1.Keeps ∧ edge.2.Keeps := by
    intro edge hedge
    obtain ⟨record, hrecord, rfl⟩ := List.mem_map.mp hedge
    obtain ⟨hcaller, hcallee⟩ := conforms_of_mem_records hrecord
    obtain ⟨hcaller', hcallee'⟩ := length_canonical_le hrecord
    exact ⟨⟨hcaller, hcaller'.trans_lt hbs⟩, ⟨hcallee, hcallee'.trans_lt hbs⟩⟩
  rw [graph_of_read hread]
  constructor
  · refine ⟨(CallGraph.length_callers_ofEdges_le _).trans_lt ?_, fun m hm => ?_⟩
    · rwa [List.length_map]
    · obtain ⟨edge, hedge, rfl⟩ := CallGraph.exists_edge_of_mem_callers hm
      exact (hkeeps edge hedge).1
  · refine ⟨((records bs).map CallRecord.edge).map fun edge => edge.2.canonical, ?_, ?_, ?_⟩
    · intro name hname
      obtain ⟨edge, hedge, rfl⟩ := CallGraph.exists_edge_of_mem_calleeNames hname
      exact List.mem_map_of_mem hedge
    · rwa [List.length_map, List.length_map]
    · intro name hname
      obtain ⟨edge, hedge, rfl⟩ := List.mem_map.mp hname
      exact (hkeeps edge hedge).2.names

theorem Traversal.keeps_index (t : Traversal) {g : CallGraph} {tests : List Method} (hg : g.Keeps)
    (htests : KeepsTests tests) : Snapshot.Keeps (t.index g tests) := by
  obtain ⟨names, hnames, hcount, hkeeps⟩ := hg.callees
  refine ⟨(t.size_index_le g tests).trans_lt htests.1, fun row hrow => ?_⟩
  obtain ⟨root, hroot, rfl⟩ := Traversal.exists_of_mem_index hrow
  have hgrounded := Reach.entries_grounded t g root
  have hlength : (t.entries g root).length < wordCount :=
    (Reach.length_entries_le hnames).trans_lt hcount
  refine ⟨(htests.2 root hroot).names, hlength, fun entry hentry => ⟨?_, ?_⟩⟩
  · exact hkeeps _ (hnames (hgrounded.mem_calleeNames entry hentry))
  · exact (hgrounded.level_le_length hentry).trans_lt hlength

end CallDepth
