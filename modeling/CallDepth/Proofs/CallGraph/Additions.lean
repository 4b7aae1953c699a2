import CallDepth.Proofs.CallGraph

/-!
# Graphs made by additions

What a graph shows after calls were added to the empty one, each by itself or with its record. Its
callers, and the callees of each, come in canonical order, each once, and its counts are those of the
distinct callers and calls that were added. So nothing of this depends on the order of the calls or on
how often one was added.
-/

namespace CallDepth.CallGraph

/-! ### Additions -/

/-- A call that is added to a graph, by itself or with its record. -/
inductive Addition where
  | edge (caller callee : Method)
  | record (r : CallRecord)

namespace Addition

def call : Addition → Method × Method
  | edge caller callee => (caller, callee)
  | record r => (r.caller, r.callee)

def apply (g : CallGraph) : Addition → CallGraph
  | edge caller callee => g.addEdge caller callee
  | record r => g.addRecord r

theorem apply_eq_addEdge (g : CallGraph) (addition : Addition) :
    addition.apply g = g.addEdge addition.call.1 addition.call.2 := by
  cases addition with
  | edge caller callee => rfl
  | record r => rfl

end Addition

def ofAdditions (additions : List Addition) : CallGraph :=
  additions.foldl (fun g addition => addition.apply g) empty

theorem ofAdditions_eq_ofEdges (additions : List Addition) :
    ofAdditions additions = ofEdges (additions.map Addition.call) := by
  rw [ofAdditions, ofEdges, List.foldl_map]
  congr 1
  funext g addition
  exact addition.apply_eq_addEdge g

/-! ### The calls of a graph -/

/-- The canonical forms of the caller and the callee of a call. -/
def callNames (call : Method × Method) : String × String := (call.1.canonical, call.2.canonical)

/-- The calls that a graph holds, by the canonical forms of caller and callee. -/
def calls (g : CallGraph) : List (String × String) :=
  g.rows.toList.flatMap fun entry => entry.2.2.names.map (Prod.mk entry.1)

theorem length_calls (g : CallGraph) : g.calls.length = g.edgeCount := by
  rw [calls, List.length_flatMap, edgeCount, List.sum_eq_foldr]
  congr 1
  apply List.map_congr_left
  intro entry _
  rw [List.length_map, ← MethodSet.map_canonical_toList, List.length_map, MethodSet.length_toList]

theorem mem_calls_iff {g : CallGraph} {caller callee : String} :
    (caller, callee) ∈ g.calls ↔ ∃ row, g.rows[caller]? = some row ∧ callee ∈ row.2.names := by
  simp only [calls, List.mem_flatMap, List.mem_map, Prod.exists, Prod.mk.injEq,
    Std.ExtTreeMap.mem_toList_iff_getElem?_eq_some]
  constructor
  · rintro ⟨caller, m, s, hrow, callee, hcallee, rfl, rfl⟩
    exact ⟨m, s, hrow, hcallee⟩
  · rintro ⟨m, s, hrow, hcallee⟩
    exact ⟨caller, m, s, hrow, callee, hcallee, rfl, rfl⟩

theorem mem_names_of_callees? {g : CallGraph} {m : Method} {s : MethodSet}
    (h : g.callees? m = some s) {name : String} :
    name ∈ s.names ↔ (m.canonical, name) ∈ g.calls := by
  obtain ⟨row, hrow, rfl⟩ := Option.map_eq_some_iff.mp h
  rw [mem_calls_iff, hrow]
  simp only [Option.some.injEq, exists_eq_left']

theorem nodup_calls (g : CallGraph) : g.calls.Nodup := by
  refine List.nodup_flatMap.mpr ⟨fun entry _ => ?_, ?_⟩
  · exact (nodup_of_pairwise_compare entry.2.2.pairwise_names).map fun a b h => (Prod.mk.inj h).2
  · -- rows of different callers have no call in common
    refine (Std.ExtTreeMap.ordered_keys_toList (t := g.rows)).imp fun {entry next} hlt => ?_
    intro call hcall hnext
    obtain ⟨callee, -, rfl⟩ := List.mem_map.mp hcall
    obtain ⟨callee', -, heq⟩ := List.mem_map.mp hnext
    rw [(Prod.mk.inj heq).1] at hlt
    simp at hlt

/-! ### What was added -/

variable {edges others : List (Method × Method)}

theorem isSome_callees?_ofEdges_iff {m : Method} :
    ((ofEdges edges).callees? m).isSome = true ↔
      ∃ edge ∈ edges, edge.1.canonical = m.canonical := by
  rw [← not_iff_not, Bool.not_eq_true, Option.isSome_eq_false_iff, Option.isNone_iff_eq_none,
    callees?_ofEdges_eq_none_iff]
  simp only [not_exists, not_and, ne_eq]

section Callees

variable {m : Method} {s : MethodSet}

theorem exists_mem_toList_iff (h : (ofEdges edges).callees? m = some s) {callee : Method} :
    (∃ stored ∈ s.toList, stored.canonical = callee.canonical) ↔
      ∃ edge ∈ edges, edge.1.canonical = m.canonical ∧ edge.2.canonical = callee.canonical := by
  rw [← hasCall_ofEdges_iff, hasCall_iff_mem_callees, callees_eq_toList h]

theorem toList_ne_nil (h : (ofEdges edges).callees? m = some s) : s.toList ≠ [] := by
  obtain ⟨edge, hedge, hcaller⟩ :=
    isSome_callees?_ofEdges_iff.mp (Option.isSome_iff_exists.mpr ⟨s, h⟩)
  obtain ⟨stored, hstored, -⟩ := (exists_mem_toList_iff h).mpr ⟨edge, hedge, hcaller, rfl⟩
  exact List.ne_nil_of_mem hstored

theorem exists_edge_of_mem_toList (h : (ofEdges edges).callees? m = some s) {stored : Method}
    (hstored : stored ∈ s.toList) :
    ∃ edge ∈ edges, edge.1.canonical = m.canonical ∧ edge.2 = stored := by
  rw [← callees_eq_toList h] at hstored
  exact exists_edge_of_mem_callees hstored

end Callees

theorem mem_callerNames_ofEdges_iff {name : String} :
    name ∈ (ofEdges edges).callerNames ↔ name ∈ edges.map fun edge => edge.1.canonical := by
  constructor
  · intro h
    rw [← map_canonical_callers] at h
    obtain ⟨m, hm, rfl⟩ := List.mem_map.mp h
    obtain ⟨edge, hedge, rfl⟩ := exists_edge_of_mem_callers hm
    exact List.mem_map_of_mem hedge
  · intro h
    obtain ⟨edge, hedge, rfl⟩ := List.mem_map.mp h
    exact mem_callerNames_iff.mpr (isSome_callees?_ofEdges_iff.mpr ⟨edge, hedge, rfl⟩)

theorem mem_calls_ofEdges_iff {call : String × String} :
    call ∈ (ofEdges edges).calls ↔ call ∈ edges.map callNames := by
  obtain ⟨caller, callee⟩ := call
  have hrow : ∀ of : List (Method × Method),
      (∃ row, rowOf? of = some row ∧ callee ∈ row.2.names) ↔
        ∃ edge ∈ of, edge.2.canonical = callee := by
    intro of
    cases of with
    | nil => simp [rowOf?]
    | cons first rest =>
      simp only [rowOf?, List.head?_cons, Option.map_some, Option.some.injEq, exists_eq_left',
        MethodSet.mem_names_ofList_iff, List.mem_map, exists_exists_and_eq_and]
  simp only [mem_calls_iff, getElem?_ofEdges, hrow, edgesOf, List.mem_filter, decide_eq_true_eq,
    List.mem_map, callNames, Prod.mk.injEq, and_assoc]

theorem callerCount_ofEdges (edges : List (Method × Method)) :
    (ofEdges edges).callerCount = (edges.map fun edge => edge.1.canonical).dedup.length := by
  have hnodup := nodup_of_pairwise_compare (ofEdges edges).pairwise_callerNames
  rw [← length_callerNames]
  exact (perm_dedup_of_mem_iff hnodup fun name => mem_callerNames_ofEdges_iff).length_eq

theorem edgeCount_ofEdges (edges : List (Method × Method)) :
    (ofEdges edges).edgeCount = (edges.map callNames).dedup.length := by
  rw [← length_calls]
  exact (perm_dedup_of_mem_iff (nodup_calls _) fun call => mem_calls_ofEdges_iff).length_eq

theorem isEmpty_ofEdges_iff : (ofEdges edges).isEmpty = true ↔ edges = [] := by
  rw [isEmpty_eq, beq_iff_eq, callerCount_ofEdges, List.length_eq_zero_iff, List.dedup_eq_nil,
    List.map_eq_nil_iff]

/-! ### Additions of the same calls -/

/-- Whether two graphs show the same: the same callees of each method, in the same order and of no
method if there are none, the same callers in the same order, and the same counts. Methods are the same
if their canonical forms are. -/
structure ShowsSame (g h : CallGraph) : Prop where
  callees? : ∀ m, (g.callees? m).map (fun s => s.toList.map Method.canonical) =
    (h.callees? m).map fun s => s.toList.map Method.canonical
  callers : g.callers.map Method.canonical = h.callers.map Method.canonical
  callerCount : g.callerCount = h.callerCount
  edgeCount : g.edgeCount = h.edgeCount
  isEmpty : g.isEmpty = h.isEmpty

section SameCalls

variable (hsame : ∀ call, call ∈ others.map callNames ↔ call ∈ edges.map callNames)

include hsame

theorem mem_calls_ofEdges_congr {call : String × String} :
    call ∈ (ofEdges edges).calls ↔ call ∈ (ofEdges others).calls := by
  rw [mem_calls_ofEdges_iff, mem_calls_ofEdges_iff, hsame]

theorem callerNames_ofEdges_congr : (ofEdges edges).callerNames = (ofEdges others).callerNames := by
  refine eq_of_pairwise_compare (pairwise_callerNames _) (pairwise_callerNames _) fun name => ?_
  have hfst : (fun edge : Method × Method => edge.1.canonical) = Prod.fst ∘ callNames := rfl
  rw [mem_callerNames_ofEdges_iff, mem_callerNames_ofEdges_iff, hfst, ← List.map_map,
    ← List.map_map]
  simp only [List.mem_map (f := Prod.fst), hsame]

theorem edgeCount_ofEdges_congr : (ofEdges edges).edgeCount = (ofEdges others).edgeCount := by
  rw [← length_calls, ← length_calls]
  exact ((List.perm_ext_iff_of_nodup (nodup_calls _) (nodup_calls _)).mpr
    fun call => mem_calls_ofEdges_congr hsame).length_eq

theorem callees?_ofEdges_congr (m : Method) :
    ((ofEdges edges).callees? m).map (fun s => s.toList.map Method.canonical) =
      ((ofEdges others).callees? m).map fun s => s.toList.map Method.canonical := by
  have hsome : ((ofEdges edges).callees? m).isSome = ((ofEdges others).callees? m).isSome := by
    rw [Bool.eq_iff_iff, ← mem_callerNames_iff, ← mem_callerNames_iff,
      callerNames_ofEdges_congr hsame]
  cases hs : (ofEdges edges).callees? m with
  | none =>
    rw [hs, Option.isSome_none, eq_comm, Option.isSome_eq_false_iff,
      Option.isNone_iff_eq_none] at hsome
    rw [hsome]
  | some s =>
    rw [hs, Option.isSome_some, eq_comm] at hsome
    obtain ⟨t, ht⟩ := Option.isSome_iff_exists.mp hsome
    have hnames : s.names = t.names := by
      refine eq_of_pairwise_compare s.pairwise_names t.pairwise_names fun name => ?_
      rw [mem_names_of_callees? hs, mem_names_of_callees? ht, mem_calls_ofEdges_congr hsame]
    rw [ht, Option.map_some, Option.map_some, s.map_canonical_toList, t.map_canonical_toList,
      hnames]

/-- What a graph shows depends only on which calls were added to it. -/
theorem showsSame_ofEdges : (ofEdges edges).ShowsSame (ofEdges others) := by
  have hcallers := callerNames_ofEdges_congr hsame
  have hcount : (ofEdges edges).callerCount = (ofEdges others).callerCount := by
    rw [← length_callerNames, ← length_callerNames, hcallers]
  refine ⟨callees?_ofEdges_congr hsame, ?_, hcount, edgeCount_ofEdges_congr hsame, ?_⟩
  · rw [map_canonical_callers, map_canonical_callers, hcallers]
  · rw [isEmpty_eq, isEmpty_eq, hcount]

end SameCalls

/-! ### What a graph shows -/

/-- What a graph shows after calls were added to the empty one. A method has callees exactly if a call
of a method that is the same was added, and then they are, in canonical order and each once, the
methods that it was added as the caller of. The callers come in canonical order, and the counts are
those of the distinct callers and of the distinct calls; the graph is empty exactly if nothing was
added. Additions of the same calls, in whatever order and however often, make graphs that show the
same. -/
theorem ofAdditions_shows_calls (additions : List Addition) :
    let g := ofAdditions additions
    let added := additions.map Addition.call
    (∀ m, (g.callees? m).isSome = true ↔ ∃ call ∈ added, call.1.same m = true) ∧
    (∀ m callees, g.callees? m = some callees →
      callees.toList ≠ [] ∧
      (callees.toList.Pairwise fun a b => a.compare b = .lt) ∧
      (∀ callee, (∃ stored ∈ callees.toList, stored.same callee = true) ↔
        ∃ call ∈ added, call.1.same m = true ∧ call.2.same callee = true) ∧
      ∀ stored ∈ callees.toList, ∃ call ∈ added, call.1.same m = true ∧ call.2 = stored) ∧
    (g.callers.Pairwise fun a b => a.compare b = .lt) ∧
    (∀ m, (∃ stored ∈ g.callers, stored.same m = true) ↔ ∃ call ∈ added, call.1.same m = true) ∧
    g.callerCount = (added.map fun call => call.1.canonical).dedup.length ∧
    g.edgeCount = (added.map callNames).dedup.length ∧
    (g.isEmpty = true ↔ additions = []) ∧
    ∀ others : List Addition,
      (∀ call, call ∈ (others.map Addition.call).map callNames ↔ call ∈ added.map callNames) →
      g.ShowsSame (ofAdditions others) := by
  intro g added
  have hg : g = ofEdges added := ofAdditions_eq_ofEdges additions
  simp only [Method.same, decide_eq_true_eq, hg]
  refine ⟨fun m => isSome_callees?_ofEdges_iff, fun m s hs => ?_, pairwise_callers _, fun m => ?_,
    callerCount_ofEdges _, edgeCount_ofEdges _, ?_, fun others hothers => ?_⟩
  · exact ⟨toList_ne_nil hs, s.pairwise_toList, fun callee => exists_mem_toList_iff hs,
      fun stored => exists_edge_of_mem_toList hs⟩
  · rw [← isSome_callees?_ofEdges_iff, ← mem_callerNames_iff, ← map_canonical_callers, List.mem_map]
  · rw [isEmpty_ofEdges_iff, List.map_eq_nil_iff]
  · rw [ofAdditions_eq_ofEdges]
    exact showsSame_ofEdges hothers

end CallDepth.CallGraph
