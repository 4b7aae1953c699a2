import Mathlib.Data.Set.Card
import CallDepth.Proofs.Members
import CallDepth.Proofs.Reach.Descent
import CallDepth.Proofs.Reach.Roots

/-!
# The index of several roots

Roots are traversed one by one, and what is recorded of one says nothing of another. So the index of a
list of roots depends only on which roots are in it, it is put together from the indexes of parts of
the list, and its counts are sums and maxima over the roots of what each of them reaches.
-/

namespace CallDepth

/-! ### Indexes -/

namespace CallIndex

/-- The rows of two indexes; a root of both has the entries that it has in the second. -/
def merge (i j : CallIndex) : CallIndex := ⟨i.byRoot ∪ j.byRoot⟩

theorem get?_merge (i j : CallIndex) (root : String) :
    (i.merge j).get? root = (j.get? root).or (i.get? root) :=
  Std.ExtTreeMap.getElem?_union

theorem mem_roots_iff {index : CallIndex} {root : String} :
    root ∈ index.toList.map Prod.fst ↔ (index.get? root).isSome = true := by
  simp only [List.mem_map, Prod.exists, mem_toList_iff, Option.isSome_iff_exists,
    exists_and_right, exists_eq_right]

theorem totalEntries_eq_sum (index : CallIndex) :
    index.totalEntries = (index.toList.map (·.2.length)).sum :=
  List.sum_eq_foldr.symm

theorem maxLevel_eq_max? (index : CallIndex) :
    index.maxLevel = ((index.toList.flatMap (·.2)).map CallEntry.level).max?.getD 0 := by
  rw [maxLevel, ← List.foldl_map (f := CallEntry.level) (g := max), List.foldl_max, Nat.zero_max]

end CallIndex

/-! ### What is reached -/

namespace Reach

variable {g : CallGraph} {scope : String}

/-- The canonical forms of what is reached from the methods of a canonical form. -/
def reachedFrom (g : CallGraph) (scope : String) (name : String) : Set String :=
  {callee | ∃ root m : Method, root.canonical = name ∧ m.canonical = callee ∧
    Reaches g scope root m}

theorem mem_reachedFrom_iff (t : Traversal) {root : Method} {callee : String} :
    callee ∈ reachedFrom g t.scope root.canonical ↔ callee ∈ names (t.entries g root) := by
  constructor
  · rintro ⟨other, m, hname, rfl, hreaches⟩
    rw [← Traversal.entries_congr hname]
    exact (mem_names_entries_iff t).mpr hreaches
  · intro h
    obtain ⟨entry, hentry, rfl⟩ := List.mem_map.mp h
    obtain ⟨m, hm, hchain⟩ := hasChain_of_mem_entries hentry
    exact ⟨root, m, rfl, hm, entry.level, hchain⟩

/-- Each method that is reached has one entry. -/
theorem length_entries_eq_ncard (t : Traversal) (g : CallGraph) (root : Method) :
    (t.entries g root).length = (reachedFrom g t.scope root.canonical).ncard := by
  have hset : reachedFrom g t.scope root.canonical = (names (t.entries g root)).toFinset := by
    ext callee
    rw [mem_reachedFrom_iff t, Finset.mem_coe, List.mem_toFinset]
  rw [hset, Set.ncard_coe_finset, List.toFinset_card_of_nodup (nodup_names_entries t g root), names,
    List.length_map]

end Reach

/-! ### The index of a list of roots -/

namespace Traversal

open Reach

variable {t : Traversal} {g : CallGraph} {roots others : List Method} {name : String}

theorem isSome_get?_index_iff_mem :
    ((t.index g roots).get? name).isSome = true ↔ name ∈ roots.map Method.canonical := by
  rw [isSome_get?_index, List.mem_map]

theorem get?_index_eq_none (h : name ∉ roots.map Method.canonical) :
    (t.index g roots).get? name = none := by
  rwa [← isSome_get?_index_iff_mem (t := t) (g := g), Bool.not_eq_true,
    Option.isSome_eq_false_iff, Option.isNone_iff_eq_none] at h

/-- A root has the same entries in the indexes of all lists that it is in. -/
theorem get?_index_eq (h : name ∈ others.map Method.canonical)
    (h' : name ∈ roots.map Method.canonical) :
    (t.index g others).get? name = (t.index g roots).get? name := by
  obtain ⟨other, hother, rfl⟩ := List.mem_map.mp h
  obtain ⟨root, hroot, hname⟩ := List.mem_map.mp h'
  rw [get?_index hother, ← hname, get?_index hroot, entries_congr hname]

theorem index_eq_of_mem_iff
    (h : ∀ name, name ∈ others.map Method.canonical ↔ name ∈ roots.map Method.canonical) :
    t.index g others = t.index g roots := by
  apply CallIndex.ext_get?
  intro name
  by_cases hname : name ∈ roots.map Method.canonical
  · exact get?_index_eq ((h name).mpr hname) hname
  · rw [get?_index_eq_none hname, get?_index_eq_none (mt (h name).mp hname)]

theorem merge_index {front back : List Method}
    (h : ∀ name, name ∈ front.map Method.canonical ∨ name ∈ back.map Method.canonical ↔
      name ∈ roots.map Method.canonical) :
    (t.index g front).merge (t.index g back) = t.index g roots := by
  apply CallIndex.ext_get?
  intro name
  rw [CallIndex.get?_merge]
  by_cases hback : name ∈ back.map Method.canonical
  · rw [Option.or_of_isSome (isSome_get?_index_iff_mem.mpr hback)]
    exact get?_index_eq hback ((h name).mp (Or.inr hback))
  · rw [get?_index_eq_none hback, Option.none_or]
    by_cases hfront : name ∈ front.map Method.canonical
    · exact get?_index_eq hfront ((h name).mp (Or.inl hfront))
    · rw [get?_index_eq_none hfront,
        get?_index_eq_none (mt (h name).mpr (not_or_intro hfront hback))]

/-! ### Counts -/

theorem roots_index_perm (t : Traversal) (g : CallGraph) (roots : List Method) :
    ((t.index g roots).toList.map Prod.fst).Perm (roots.map Method.canonical).dedup := by
  refine perm_dedup_of_mem_iff (CallIndex.nodup_roots _) fun name => ?_
  rw [CallIndex.mem_roots_iff, isSome_get?_index_iff_mem]

theorem size_index (t : Traversal) (g : CallGraph) (roots : List Method) :
    (t.index g roots).size = (roots.map Method.canonical).dedup.length := by
  rw [← (roots_index_perm t g roots).length_eq, List.length_map, CallIndex.length_toList]

theorem totalEntries_index (t : Traversal) (g : CallGraph) (roots : List Method) :
    (t.index g roots).totalEntries =
      ((roots.map Method.canonical).dedup.map fun root => (reachedFrom g t.scope root).ncard).sum := by
  have hrow : ∀ row ∈ (t.index g roots).toList,
      row.2.length = (reachedFrom g t.scope row.1).ncard := by
    intro row h
    obtain ⟨root, -, rfl⟩ := exists_of_mem_index h
    exact length_entries_eq_ncard t g root
  rw [CallIndex.totalEntries_eq_sum, List.map_congr_left hrow,
    ← ((roots_index_perm t g roots).map _).sum_eq, List.map_map]
  rfl

theorem mem_levels_index_iff {level : Nat} :
    level ∈ ((t.index g roots).toList.flatMap (·.2)).map CallEntry.level ↔
      level ∈ (roots.flatMap (t.entries g)).map CallEntry.level := by
  have hentry : ∀ entry, entry ∈ (t.index g roots).toList.flatMap (·.2) ↔
      entry ∈ roots.flatMap (t.entries g) := by
    intro entry
    rw [List.mem_flatMap, List.mem_flatMap]
    constructor
    · rintro ⟨row, hrow, hentry⟩
      obtain ⟨root, hroot, rfl⟩ := exists_of_mem_index hrow
      exact ⟨root, hroot, hentry⟩
    · rintro ⟨root, hroot, hentry⟩
      exact ⟨(root.canonical, t.entries g root), CallIndex.mem_toList_iff.mpr (get?_index hroot),
        hentry⟩
  simp only [List.mem_map, hentry]

theorem maxLevel_index (t : Traversal) (g : CallGraph) (roots : List Method) :
    (t.index g roots).maxLevel =
      ((roots.flatMap (t.entries g)).map CallEntry.level).max?.getD 0 := by
  rw [CallIndex.maxLevel_eq_max?]
  exact getD_max?_eq_of_mem_iff fun level => mem_levels_index_iff

/-- The levels of entries start at one, so the greatest is zero only where there are none. -/
theorem maxLevel_index_eq_zero_iff :
    (t.index g roots).maxLevel = 0 ↔ ∀ root ∈ roots, ∀ m, ¬ Reaches g t.scope root m := by
  rw [maxLevel_index]
  constructor
  · intro hzero root hroot m hreaches
    obtain ⟨entry, hentry, -⟩ := List.mem_map.mp ((mem_names_entries_iff t).mpr hreaches)
    have hmem : entry.level ∈ (roots.flatMap (t.entries g)).map CallEntry.level :=
      List.mem_map_of_mem (List.mem_flatMap.mpr ⟨root, hroot, hentry⟩)
    have hle : entry.level ≤ 0 := hzero ▸ List.le_max?_getD_of_mem hmem
    exact absurd (one_le_level_of_mem_entries hentry) (Nat.not_le.mpr (Nat.lt_succ_of_le hle))
  · intro hnone
    have hempty : roots.flatMap (t.entries g) = [] := by
      refine List.flatMap_eq_nil_iff.mpr fun root hroot => ?_
      refine List.eq_nil_iff_forall_not_mem.mpr fun entry hentry => ?_
      obtain ⟨m, -, hchain⟩ := hasChain_of_mem_entries hentry
      exact hnone root hroot m ⟨entry.level, hchain⟩
    rw [hempty]
    rfl

/-- What is in the index of a list of roots: for each root what a traversal records of it, in canonical
order of the roots, and nothing for any other method. Lists of the same roots have the same index,
whatever their order and however often a root is repeated, and so have two lists that together hold
these roots once their indexes are merged. The index counts the distinct roots and, over these, the
methods that each of them reaches; its greatest level is that of the entries of all roots, and zero
exactly if no root reaches a method. -/
theorem index_holds_each_root (t : Traversal) (g : CallGraph) (roots : List Method) :
    (∀ root ∈ roots, (t.index g roots).get? root.canonical = some (t.entries g root)) ∧
    (∀ name, name ∉ roots.map Method.canonical → (t.index g roots).get? name = none) ∧
    ((t.index g roots).toList.Pairwise fun row next => compare row.1 next.1 = .lt) ∧
    (∀ others : List Method,
      (∀ name, name ∈ others.map Method.canonical ↔ name ∈ roots.map Method.canonical) →
      t.index g others = t.index g roots) ∧
    (∀ front back : List Method,
      (∀ name, name ∈ front.map Method.canonical ∨ name ∈ back.map Method.canonical ↔
        name ∈ roots.map Method.canonical) →
      (t.index g front).merge (t.index g back) = t.index g roots) ∧
    (t.index g roots).size = (roots.map Method.canonical).dedup.length ∧
    (t.index g roots).totalEntries =
      ((roots.map Method.canonical).dedup.map fun root => (reachedFrom g t.scope root).ncard).sum ∧
    (t.index g roots).maxLevel =
      ((roots.flatMap (t.entries g)).map CallEntry.level).max?.getD 0 ∧
    ((t.index g roots).maxLevel = 0 ↔ ∀ root ∈ roots, ∀ m, ¬ Reaches g t.scope root m) :=
  ⟨fun _ h => get?_index h, fun _ h => get?_index_eq_none h, CallIndex.pairwise_toList _,
    fun _ h => index_eq_of_mem_iff h, fun _ _ h => merge_index h, size_index t g roots,
    totalEntries_index t g roots, maxLevel_index t g roots, maxLevel_index_eq_zero_iff⟩

end Traversal

end CallDepth
