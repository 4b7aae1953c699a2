import CallDepth.Proofs.CallIndex
import CallDepth.Proofs.Reach.Layers

/-!
# Roots of an index

What a root reaches depends on its canonical form alone, and is nothing if the graph has no calls of
it. So the index of a list of roots has one row for each canonical form in the list, however often and
in whatever order the roots come.
-/

namespace CallDepth

namespace Reach

variable {g : CallGraph} {scope : String} {root other : Method}

theorem breadthFirst_eq_expand (g : CallGraph) (scope : String) (root : Method) :
    breadthFirst g scope root =
      (breadthFirstFrom g scope (Sweep.expand g scope ⟨.empty, ∅⟩ root 1)).toList := by
  rw [breadthFirst, breadthFirstFrom]
  rfl

theorem depthFirst_congr (h : root.canonical = other.canonical) :
    depthFirst g scope root = depthFirst g scope other := by
  rw [depthFirst, depthFirst, frames, frames, g.callees?_congr h]

theorem breadthFirst_congr (h : root.canonical = other.canonical) :
    breadthFirst g scope root = breadthFirst g scope other := by
  rw [breadthFirst_eq_expand, breadthFirst_eq_expand, Sweep.expand, Sweep.expand,
    g.callees_congr h]

theorem depthFirst_eq_nil (h : g.callees? root = none) : depthFirst g scope root = [] := by
  rw [depthFirst, frames, h, depthFirstFrom, Trail.toList_empty]

theorem breadthFirst_eq_nil (h : g.callees? root = none) : breadthFirst g scope root = [] := by
  have hcallees : g.callees root = [] := by
    rw [CallGraph.callees, h]
    rfl
  rw [breadthFirst_eq_expand, Sweep.expand, hcallees, List.foldl_nil,
    breadthFirstFrom_nil waiting_empty, Trail.toList_empty]

end Reach

namespace Traversal

variable {t : Traversal} {g : CallGraph} {root other : Method}

theorem entries_congr (h : root.canonical = other.canonical) :
    t.entries g root = t.entries g other := by
  unfold entries
  cases t.strategy with
  | depthFirst => exact Reach.depthFirst_congr h
  | shortestDepth => exact Reach.breadthFirst_congr h

theorem entries_eq_nil (h : g.callees? root = none) : t.entries g root = [] := by
  unfold entries
  cases t.strategy with
  | depthFirst => exact Reach.depthFirst_eq_nil h
  | shortestDepth => exact Reach.breadthFirst_eq_nil h

end Traversal

/-! ### Rows -/

theorem CallIndex.isSome_get?_ofList {rows : List (String × List CallEntry)} {root : String} :
    ((ofList rows).get? root).isSome = true ↔ ∃ row ∈ rows, row.1 = root := by
  induction rows using List.reverseRecOn with
  | nil =>
    rw [ofList, List.foldl_nil, get?_empty]
    simp
  | append_singleton rows row ih =>
    rw [ofList_append_singleton, get?_insert]
    simp only [List.mem_append, List.mem_singleton, or_and_right, exists_or, exists_eq_left]
    by_cases hroot : row.1 = root
    · simp [hroot]
    · simp [hroot, ih]

namespace Traversal

variable {t : Traversal} {g : CallGraph} {roots : List Method}

theorem isSome_get?_index {name : String} :
    ((t.index g roots).get? name).isSome = true ↔ ∃ root ∈ roots, root.canonical = name := by
  rw [index, CallIndex.isSome_get?_ofList]
  simp only [List.mem_map, exists_exists_and_eq_and]

theorem get?_index {root : Method} (h : root ∈ roots) :
    (t.index g roots).get? root.canonical = some (t.entries g root) := by
  have hsome : ((t.index g roots).get? root.canonical).isSome = true :=
    isSome_get?_index.mpr ⟨root, h, rfl⟩
  obtain ⟨entries, hentries⟩ := Option.isSome_iff_exists.mp hsome
  obtain ⟨other, -, hrow⟩ := exists_of_mem_index (CallIndex.mem_toList_iff.mpr hentries)
  obtain ⟨hname, hentries'⟩ := Prod.mk.inj hrow
  rw [hentries, hentries', entries_congr hname]

end Traversal

end CallDepth
