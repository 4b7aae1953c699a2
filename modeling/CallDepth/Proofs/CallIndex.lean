import Mathlib.Data.List.Induction
import CallDepth.Reach.Strategy

/-!
# Indexes of rows

What an index that is made of a list of rows holds: for each root the last of its rows. An index is the
one that is made of its own rows.
-/

namespace CallDepth

namespace CallIndex

theorem ofList_append_singleton (rows : List (String × List CallEntry))
    (row : String × List CallEntry) :
    ofList (rows ++ [row]) = (ofList rows).insert row.1 row.2 := by
  rw [ofList, ofList, List.foldl_append]
  rfl

theorem mem_of_get?_ofList {rows : List (String × List CallEntry)} {root : String}
    {entries : List CallEntry} (h : (ofList rows).get? root = some entries) :
    (root, entries) ∈ rows := by
  induction rows using List.reverseRecOn with
  | nil =>
    rw [ofList, List.foldl_nil, get?_empty] at h
    cases h
  | append_singleton rows row ih =>
    rw [ofList_append_singleton, get?_insert] at h
    rw [List.mem_append, List.mem_singleton]
    split at h
    · rename_i hroot
      cases h
      exact Or.inr (by rw [← hroot])
    · exact Or.inl (ih h)

/-- If no root has two rows, all rows are held. -/
theorem get?_ofList_of_mem {rows : List (String × List CallEntry)} {root : String}
    {entries : List CallEntry} (hrows : (rows.map Prod.fst).Nodup) (h : (root, entries) ∈ rows) :
    (ofList rows).get? root = some entries := by
  induction rows using List.reverseRecOn with
  | nil => cases h
  | append_singleton rows row ih =>
    rw [List.map_append, List.map_singleton, List.nodup_append] at hrows
    rw [ofList_append_singleton, get?_insert]
    rw [List.mem_append, List.mem_singleton] at h
    rcases h with h | rfl
    · have hne : row.1 ≠ root :=
        (hrows.2.2 root (List.mem_map_of_mem h) row.1 (List.mem_singleton_self _)).symm
      rw [if_neg hne]
      exact ih hrows.1 h
    · rw [if_pos rfl]

/-- Rows in canonical order have one root each. -/
theorem nodup_of_pairwise {rows : List (String × List CallEntry)}
    (h : rows.Pairwise fun row next => compare row.1 next.1 = .lt) :
    (rows.map Prod.fst).Nodup :=
  nodup_of_pairwise_compare (List.pairwise_map.mpr h)

theorem nodup_roots (index : CallIndex) : (index.toList.map Prod.fst).Nodup :=
  nodup_of_pairwise index.pairwise_toList

theorem ofList_toList (index : CallIndex) : ofList index.toList = index := by
  apply ext_get?
  intro root
  apply Option.ext
  intro entries
  constructor
  · intro h
    exact mem_toList_iff.mp (mem_of_get?_ofList h)
  · intro h
    exact get?_ofList_of_mem index.nodup_roots (mem_toList_iff.mpr h)

theorem mem_of_mem_toList_ofList {rows : List (String × List CallEntry)}
    {row : String × List CallEntry} (h : row ∈ (ofList rows).toList) : row ∈ rows :=
  mem_of_get?_ofList (mem_toList_iff.mp h)

theorem size_ofList_le (rows : List (String × List CallEntry)) :
    (ofList rows).size ≤ rows.length := by
  induction rows using List.reverseRecOn with
  | nil => simp [ofList, size, empty]
  | append_singleton rows row ih =>
    have hinsert : ((ofList rows).insert row.1 row.2).size ≤ (ofList rows).size + 1 :=
      Std.ExtTreeMap.size_insert_le
    rw [ofList_append_singleton, List.length_append, List.length_singleton]
    omega

end CallIndex

/-- The rows of a computed index are what the roots reach. -/
theorem Traversal.exists_of_mem_index {t : Traversal} {g : CallGraph} {roots : List Method}
    {row : String × List CallEntry} (h : row ∈ (t.index g roots).toList) :
    ∃ root ∈ roots, row = (root.canonical, t.entries g root) := by
  obtain ⟨root, hroot, rfl⟩ := List.mem_map.mp (CallIndex.mem_of_mem_toList_ofList h)
  exact ⟨root, hroot, rfl⟩

theorem Traversal.size_index_le (t : Traversal) (g : CallGraph) (roots : List Method) :
    (t.index g roots).size ≤ roots.length := by
  have h := CallIndex.size_ofList_le (roots.map fun root => (root.canonical, t.entries g root))
  rwa [List.length_map] at h

end CallDepth
