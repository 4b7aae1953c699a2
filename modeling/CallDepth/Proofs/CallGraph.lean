import Mathlib.Data.List.Induction
import CallDepth.CallGraph
import CallDepth.Proofs.Members
import CallDepth.Proofs.Method.Form

/-!
# Graphs of edges

What a set of methods and a graph hold, read off the list that they are made of. For methods that
can be written, only the members of that list matter, not their order or number.
-/

namespace CallDepth

/-! ### Sets of methods -/

namespace MethodSet

theorem ofList_append_singleton (ms : List Method) (m : Method) :
    ofList (ms ++ [m]) = (ofList ms).insert m := by
  rw [ofList, ofList, List.foldl_append]
  rfl

theorem getElem?_ofList (ms : List Method) (name : String) :
    (ofList ms).byName[name]? = ms.find? fun m => m.canonical = name := by
  induction ms using List.reverseRecOn with
  | nil => simp [ofList, empty]
  | append_singleton ms m ih =>
    rw [ofList_append_singleton, List.find?_append, ← ih]
    simp only [insert, Std.ExtTreeMap.getElem?_insertIfNew, Std.compare_eq_iff_eq]
    by_cases hname : m.canonical = name
    · subst hname
      -- a set keeps the method that it has
      by_cases hold : m.canonical ∈ (ofList ms).byName <;> simp [hold]
    · simp [hname]

theorem ofList_eq_of_mem_iff {ms ns : List Method} (hconforms : ∀ m ∈ ms, m.Conforms)
    (hmem : ∀ m, m ∈ ms ↔ m ∈ ns) : ofList ms = ofList ns := by
  apply ext_getElem?
  intro name
  rw [getElem?_ofList, getElem?_ofList]
  refine find?_eq_of_mem_iff hmem fun m hm n hn hmname hnname => ?_
  rw [decide_eq_true_eq] at hmname hnname
  exact Method.eq_of_canonical_eq (hconforms m hm) (hconforms n hn) (hmname.trans hnname.symm)

theorem mem_of_mem_toList_ofList {ms : List Method} {m : Method}
    (h : m ∈ (ofList ms).toList) : m ∈ ms := by
  obtain ⟨⟨name, n⟩, hn, rfl⟩ := List.mem_map.mp h
  rw [Std.ExtTreeMap.mem_toList_iff_getElem?_eq_some, getElem?_ofList] at hn
  exact List.mem_of_find?_eq_some hn

theorem mem_names_ofList_iff {ms : List Method} {name : String} :
    name ∈ (ofList ms).names ↔ name ∈ ms.map Method.canonical := by
  rw [mem_names_iff, Std.ExtTreeMap.mem_iff_isSome_getElem?, getElem?_ofList, List.find?_isSome,
    List.mem_map]
  simp only [decide_eq_true_eq]

theorem contains_ofList_iff {ms : List Method} {m : Method} :
    (ofList ms).contains m = true ↔ ∃ n ∈ ms, n.canonical = m.canonical := by
  rw [contains, ← Std.ExtTreeMap.isSome_getElem?_eq_contains, getElem?_ofList,
    List.find?_isSome]
  simp only [decide_eq_true_eq]

end MethodSet

/-! ### Graphs -/

namespace CallGraph

theorem ofEdges_append_singleton (edges : List (Method × Method)) (edge : Method × Method) :
    ofEdges (edges ++ [edge]) = (ofEdges edges).addEdge edge.1 edge.2 := by
  rw [ofEdges, ofEdges, List.foldl_append]
  rfl

def edgesOf (edges : List (Method × Method)) (name : String) : List (Method × Method) :=
  edges.filter fun edge => edge.1.canonical = name

/-- The row that a caller's edges, which all have one canonical form in front, come to. -/
def rowOf? (edges : List (Method × Method)) : Option (Method × MethodSet) :=
  edges.head?.map fun edge => (edge.1, MethodSet.ofList (edges.map (·.2)))

theorem rowOf?_append_singleton (edges : List (Method × Method)) (edge : Method × Method) :
    rowOf? (edges ++ [edge]) =
      let row := (rowOf? edges).getD (edge.1, MethodSet.empty)
      some (row.1, row.2.insert edge.2) := by
  cases edges with
  | nil => rfl
  | cons first rest =>
    simp only [rowOf?, List.cons_append, List.head?_cons, Option.map_some, Option.getD_some]
    rw [← MethodSet.ofList_append_singleton, ← List.cons_append, List.map_append]
    rfl

theorem getElem?_ofEdges (edges : List (Method × Method)) (name : String) :
    (ofEdges edges).rows[name]? = rowOf? (edgesOf edges name) := by
  induction edges using List.reverseRecOn with
  | nil => simp [ofEdges, empty, edgesOf, rowOf?]
  | append_singleton edges edge ih =>
    rw [ofEdges_append_singleton, edgesOf, List.filter_append, ← edgesOf]
    simp only [addEdge, Std.ExtTreeMap.getElem?_insert, Std.compare_eq_iff_eq]
    by_cases hname : edge.1.canonical = name
    · have hrow : (ofEdges edges).row edge.1 =
          (rowOf? (edgesOf edges name)).getD (edge.1, MethodSet.empty) := by
        rw [row, hname, ih]
      simp [hname, hrow, rowOf?_append_singleton]
    · simp [hname, ih]

/-- Whether one method calls another, both known by their canonical forms. -/
def HasCall (g : CallGraph) (caller callee : Method) : Prop :=
  ∃ callees, g.callees? caller = some callees ∧ callees.contains callee = true

theorem callees?_ofEdges (edges : List (Method × Method)) (m : Method) :
    (ofEdges edges).callees? m = (rowOf? (edgesOf edges m.canonical)).map (·.2) := by
  rw [callees?, getElem?_ofEdges]

theorem callees?_ofEdges_eq_none_iff {edges : List (Method × Method)} {m : Method} :
    (ofEdges edges).callees? m = none ↔ ∀ edge ∈ edges, edge.1.canonical ≠ m.canonical := by
  rw [callees?_ofEdges, rowOf?, Option.map_map, Option.map_eq_none_iff, List.head?_eq_none_iff,
    edgesOf, List.filter_eq_nil_iff]
  simp only [decide_eq_true_eq]

theorem hasCall_ofEdges_iff {edges : List (Method × Method)} {caller callee : Method} :
    (ofEdges edges).HasCall caller callee ↔
      ∃ edge ∈ edges, edge.1.canonical = caller.canonical ∧ edge.2.canonical = callee.canonical := by
  have hcontains : ∀ of : List (Method × Method),
      (∃ row, rowOf? of = some row ∧ row.2.contains callee = true) ↔
        ∃ edge ∈ of, edge.2.canonical = callee.canonical := by
    intro of
    cases of with
    | nil => simp [rowOf?]
    | cons first rest =>
      simp only [rowOf?, List.head?_cons, Option.map_some, Option.some.injEq, exists_eq_left',
        MethodSet.contains_ofList_iff, List.mem_map, exists_exists_and_eq_and]
  simp only [HasCall, callees?_ofEdges, Option.map_eq_some_iff, exists_exists_and_eq_and,
    hcontains, edgesOf, List.mem_filter, decide_eq_true_eq, and_assoc]

theorem hasCall_iff_mem_callees {g : CallGraph} {caller callee : Method} :
    g.HasCall caller callee ↔ ∃ stored ∈ g.callees caller, stored.canonical = callee.canonical := by
  have hcontains : ∀ s : MethodSet, s.contains callee = true ↔
      ∃ stored ∈ s.toList, stored.canonical = callee.canonical := by
    intro s
    rw [MethodSet.contains, Std.ExtTreeMap.contains_iff_mem, ← MethodSet.mem_names_iff,
      ← MethodSet.map_canonical_toList, List.mem_map]
  unfold HasCall callees
  cases g.callees? caller with
  | none => simp
  | some s => simp [hcontains]

theorem mem_of_rowOf? {edges : List (Method × Method)} {row : Method × MethodSet} (h : rowOf? edges = some row) :
    (∃ edge ∈ edges, edge.1 = row.1) ∧ row.2 = MethodSet.ofList (edges.map (·.2)) := by
  obtain ⟨edge, hedge, rfl⟩ := Option.map_eq_some_iff.mp h
  exact ⟨⟨edge, List.mem_of_mem_head? hedge, rfl⟩, rfl⟩

theorem exists_edge_of_mem_callees {edges : List (Method × Method)} {caller callee : Method}
    (h : callee ∈ (ofEdges edges).callees caller) :
    ∃ edge ∈ edges, edge.1.canonical = caller.canonical ∧ edge.2 = callee := by
  rw [callees, callees?_ofEdges] at h
  cases hrow : rowOf? (edgesOf edges caller.canonical) with
  | none => simp [hrow] at h
  | some row =>
    rw [hrow, Option.map_some, Option.map_some, Option.getD_some, (mem_of_rowOf? hrow).2] at h
    obtain ⟨edge, hedge, rfl⟩ := List.mem_map.mp (MethodSet.mem_of_mem_toList_ofList h)
    obtain ⟨hmem, hname⟩ := List.mem_filter.mp hedge
    exact ⟨edge, hmem, of_decide_eq_true hname, rfl⟩

theorem exists_edge_of_mem_callers {edges : List (Method × Method)} {m : Method} (h : m ∈ (ofEdges edges).callers) :
    ∃ edge ∈ edges, edge.1 = m := by
  obtain ⟨⟨name, row⟩, hrow, rfl⟩ := List.mem_map.mp h
  rw [Std.ExtTreeMap.mem_toList_iff_getElem?_eq_some, getElem?_ofEdges] at hrow
  obtain ⟨edge, hedge, hcaller⟩ := (mem_of_rowOf? hrow).1
  exact ⟨edge, (List.mem_filter.mp hedge).1, hcaller⟩

theorem ofEdges_eq_of_mem_iff {es fs : List (Method × Method)}
    (hconforms : ∀ edge ∈ es, edge.1.Conforms ∧ edge.2.Conforms)
    (hmem : ∀ edge, edge ∈ es ↔ edge ∈ fs) : ofEdges es = ofEdges fs := by
  apply ext_getElem?
  intro name
  rw [getElem?_ofEdges, getElem?_ofEdges]
  have hof : ∀ edge, edge ∈ edgesOf es name ↔ edge ∈ edgesOf fs name := by
    intro edge
    rw [edgesOf, edgesOf, List.mem_filter, List.mem_filter, hmem]
  have hcallees : MethodSet.ofList ((edgesOf es name).map (·.2)) =
      MethodSet.ofList ((edgesOf fs name).map (·.2)) := by
    apply MethodSet.ofList_eq_of_mem_iff
    · intro m hm
      obtain ⟨edge, hedge, rfl⟩ := List.mem_map.mp hm
      exact (hconforms edge (List.mem_filter.mp hedge).1).2
    · intro m
      simp only [List.mem_map, hof]
  have hcaller : ∀ edge ∈ edgesOf es name, ∀ other ∈ edgesOf fs name, edge.1 = other.1 := by
    intro edge hedge other hother
    obtain ⟨hes, hname⟩ := List.mem_filter.mp hedge
    obtain ⟨hother, hname'⟩ := List.mem_filter.mp ((hof other).mpr hother)
    rw [decide_eq_true_eq] at hname hname'
    exact Method.eq_of_canonical_eq (hconforms edge hes).1 (hconforms other hother).1
      (hname.trans hname'.symm)
  unfold rowOf?
  rw [hcallees]
  cases hes : edgesOf es name with
  | nil =>
    have hnil : edgesOf fs name = [] := by
      apply List.eq_nil_iff_forall_not_mem.mpr
      intro edge hedge
      rw [← hof, hes] at hedge
      cases hedge
    rw [hnil]
  | cons edge rest =>
    cases hfs : edgesOf fs name with
    | nil =>
      have hedge : edge ∈ edgesOf fs name := (hof edge).mp (hes ▸ List.mem_cons_self ..)
      rw [hfs] at hedge
      cases hedge
    | cons other rest' =>
      have heq : edge.1 = other.1 :=
        hcaller edge (hes ▸ List.mem_cons_self ..) other (hfs ▸ List.mem_cons_self ..)
      simp [heq]

end CallGraph

end CallDepth
