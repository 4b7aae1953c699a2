import Mathlib.Data.List.Dedup
import CallDepth.MethodSet

/-!
# Lists with the same members

What does not depend on the order of a list or on how often its members are repeated: what is found by
a property of one member, the distinct members, the greatest member, and the list itself if it is in
canonical order.
-/

namespace CallDepth

/-- Searching for what at most one member of a list is depends only on the members. -/
theorem find?_eq_of_mem_iff {α : Type} {p : α → Bool} {xs ys : List α}
    (hmem : ∀ x, x ∈ xs ↔ x ∈ ys) (hunique : ∀ x ∈ xs, ∀ y ∈ xs, p x = true → p y = true → x = y) :
    xs.find? p = ys.find? p := by
  cases hx : xs.find? p with
  | none =>
    symm
    rw [List.find?_eq_none] at hx ⊢
    intro y hy
    exact hx y ((hmem y).mpr hy)
  | some x =>
    have hxmem := List.mem_of_find?_eq_some hx
    cases hy : ys.find? p with
    | none =>
      rw [List.find?_eq_none] at hy
      exact absurd (List.find?_some hx) (hy x ((hmem x).mp hxmem))
    | some y =>
      have hymem := (hmem y).mpr (List.mem_of_find?_eq_some hy)
      rw [hunique x hxmem y hymem (List.find?_some hx) (List.find?_some hy)]

theorem perm_dedup_of_mem_iff {α : Type} [DecidableEq α] {xs ys : List α} (hnodup : xs.Nodup)
    (hmem : ∀ x, x ∈ xs ↔ x ∈ ys) : xs.Perm ys.dedup := by
  refine (List.perm_ext_iff_of_nodup hnodup ys.nodup_dedup).mpr fun x => ?_
  rw [List.mem_dedup, hmem]

theorem getD_max?_le_of_subset {ms ns : List Nat} (h : ms ⊆ ns) :
    ms.max?.getD 0 ≤ ns.max?.getD 0 := by
  cases hmax : ms.max? with
  | none => exact Nat.zero_le _
  | some m => exact List.le_max?_getD_of_mem (h (List.max?_mem hmax))

theorem getD_max?_eq_of_mem_iff {ms ns : List Nat} (hmem : ∀ n, n ∈ ms ↔ n ∈ ns) :
    ms.max?.getD 0 = ns.max?.getD 0 :=
  Nat.le_antisymm (getD_max?_le_of_subset fun n => (hmem n).mp)
    (getD_max?_le_of_subset fun n => (hmem n).mpr)

theorem eq_of_pairwise_compare {names others : List String}
    (h : names.Pairwise fun a b => compare a b = .lt)
    (hothers : others.Pairwise fun a b => compare a b = .lt)
    (hmem : ∀ name, name ∈ names ↔ name ∈ others) : names = others := by
  have hperm : names.Perm others :=
    (List.perm_ext_iff_of_nodup (nodup_of_pairwise_compare h)
      (nodup_of_pairwise_compare hothers)).mpr hmem
  -- of two names, only one comes before the other
  refine hperm.eq_of_pairwise (fun a b _ _ hab hba => ?_) h hothers
  rw [Std.OrientedCmp.gt_of_lt hab] at hba
  cases hba

end CallDepth
