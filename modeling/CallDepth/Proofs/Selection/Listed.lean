import Mathlib.Data.List.Dedup
import CallDepth.Proofs.CallGraph
import CallDepth.Proofs.Selection.RunMark

/-!
# Selecting by a list

A list of identifiers selects the callers that one of them names, and leaves over the names that no
caller has. The keys of the selected tests and what is left over part the names that the list comes
to, so only the members of the list matter, not their order or number.
-/

namespace CallDepth

/-! ### What is selected -/

variable {g : CallGraph} {ids : List String}

theorem mem_tests_selectListed_iff {m : Method} :
    m ∈ (selectListed g ids).tests ↔
      m ∈ g.callers ∧ m.overloadKey ∈ ids.map TestId.normalize := by
  simp only [selectListed, List.mem_filter, Std.ExtTreeSet.contains_ofList, List.contains_iff_mem]

theorem pairwise_tests_selectListed :
    (selectListed g ids).tests.Pairwise fun m n => m.compare n = .lt :=
  g.pairwise_callers.sublist List.filter_sublist

theorem mem_unmatched_selectListed_iff {name : String} :
    name ∈ (selectListed g ids).unmatched ↔
      name ∈ ids.map TestId.normalize ∧ ∀ m ∈ g.callers, m.overloadKey ≠ name := by
  have hunmatched : name ∈ (selectListed g ids).unmatched ↔
      name ∈ ids.map TestId.normalize ∧
        ¬ ∃ m ∈ (selectListed g ids).tests, m.overloadKey = name := by
    simp only [selectListed, List.mem_filter, Std.ExtTreeSet.mem_toList, Std.ExtTreeSet.mem_ofList,
      Std.ExtTreeSet.contains_ofList, List.contains_iff_mem, Bool.not_eq_true', ← Bool.not_eq_true,
      List.mem_map]
  rw [hunmatched]
  refine and_congr_right fun hname => ?_
  constructor
  · rintro hnone m hm rfl
    exact hnone ⟨m, mem_tests_selectListed_iff.mpr ⟨hm, hname⟩, rfl⟩
  · rintro hnone ⟨m, hm, hkey⟩
    exact hnone m (mem_tests_selectListed_iff.mp hm).1 hkey

theorem pairwise_unmatched_selectListed :
    (selectListed g ids).unmatched.Pairwise fun a b => compare a b = .lt :=
  Std.ExtTreeSet.ordered_toList.sublist List.filter_sublist

/-- The names that a list comes to are the keys of the tests that it selects and those left over. -/
theorem dedup_normalize_perm :
    (ids.map TestId.normalize).dedup.Perm
      (((selectListed g ids).tests.map Method.overloadKey).dedup ++
        (selectListed g ids).unmatched) := by
  have hdisjoint : List.Disjoint ((selectListed g ids).tests.map Method.overloadKey).dedup
      (selectListed g ids).unmatched := by
    intro name htests hleft
    obtain ⟨m, hm, hkey⟩ := List.mem_map.mp (List.mem_dedup.mp htests)
    exact (mem_unmatched_selectListed_iff.mp hleft).2 m (mem_tests_selectListed_iff.mp hm).1 hkey
  -- neither side holds a name twice, so it is enough that they hold the same ones
  refine (List.perm_ext_iff_of_nodup (List.nodup_dedup _)
    ((List.nodup_dedup _).append (nodup_of_pairwise_compare pairwise_unmatched_selectListed)
      hdisjoint)).mpr fun name => ?_
  rw [List.mem_append, List.mem_dedup, List.mem_dedup, mem_unmatched_selectListed_iff]
  constructor
  · intro hname
    by_cases hcaller : ∃ m ∈ g.callers, m.overloadKey = name
    · obtain ⟨m, hm, rfl⟩ := hcaller
      exact Or.inl (List.mem_map_of_mem (mem_tests_selectListed_iff.mpr ⟨hm, hname⟩))
    · exact Or.inr ⟨hname, fun m hm hkey => hcaller ⟨m, hm, hkey⟩⟩
  · rintro (htests | ⟨hname, -⟩)
    · obtain ⟨m, hm, rfl⟩ := List.mem_map.mp htests
      exact (mem_tests_selectListed_iff.mp hm).2
    · exact hname

theorem selectListed_eq_of_mem_iff {others : List String} (h : ∀ id, id ∈ others ↔ id ∈ ids) :
    selectListed g others = selectListed g ids := by
  have hwanted : Std.ExtTreeSet.ofList (others.map TestId.normalize) =
      Std.ExtTreeSet.ofList (ids.map TestId.normalize) := by
    apply Std.ExtTreeSet.ext_mem
    intro name
    simp only [Std.ExtTreeSet.mem_ofList, List.contains_iff_mem, List.mem_map, h]
  simp only [selectListed, hwanted]

/-- A caller is selected exactly if one of the listed identifiers is its key, or its key with the
mark of a run, between blanks. The selected tests and the names left over come in order and part
the names that the list comes to, which depend on nothing but the members of the list. -/
theorem selectListed_partitions (hcallers : ∀ m ∈ g.callers, m.Conforms) (ids : List String) :
    (∀ m, m ∈ (selectListed g ids).tests ↔
      m ∈ g.callers ∧ ∃ id ∈ ids, TestId.Names id m.overloadKey) ∧
    ((selectListed g ids).tests.Pairwise fun m n => m.compare n = .lt) ∧
    (∀ name, name ∈ (selectListed g ids).unmatched ↔
      (∃ id ∈ ids, TestId.normalize id = name) ∧ ∀ m ∈ g.callers, m.overloadKey ≠ name) ∧
    ((selectListed g ids).unmatched.Pairwise fun a b => compare a b = .lt) ∧
    (ids.map TestId.normalize).dedup.length =
      ((selectListed g ids).tests.map Method.overloadKey).dedup.length +
        (selectListed g ids).unmatched.length ∧
    ∀ others : List String, (∀ id, id ∈ others ↔ id ∈ ids) →
      selectListed g others = selectListed g ids := by
  refine ⟨fun m => ?_, pairwise_tests_selectListed, fun name => ?_,
    pairwise_unmatched_selectListed, ?_, fun others => selectListed_eq_of_mem_iff⟩
  · rw [mem_tests_selectListed_iff, List.mem_map]
    refine and_congr_right fun hm => exists_congr fun id => and_congr_right fun _ => ?_
    exact TestId.normalize_eq_iff (hcallers m hm).getLast?_overloadKey
  · rw [mem_unmatched_selectListed_iff, List.mem_map]
  · rw [dedup_normalize_perm.length_eq, List.length_append]

/-! ### Two overloads -/

/-- The calls of two overloads of one test and of another test. -/
def callsOfOverloads : List (Method × Method) :=
  [(.make "p.Test" "t" ["int"], .make "p.Other" "o" []),
    (.make "p.Test" "t" [], .make "p.Other" "o" []),
    (.make "p.Test" "u" [], .make "p.Other" "o" [])]

/-- A run of a test selects all overloads of it, whatever else the list holds. -/
theorem selectListed_partitions_overloads :
    let g := CallGraph.ofEdges callsOfOverloads
    let ids := [" p.Test#t(a, 1)[12]\n", "p.Test#gone", "p.Test#t"]
    (∀ m ∈ g.callers, m.Conforms) ∧
    (selectListed g ids).tests = [.make "p.Test" "t" [], .make "p.Test" "t" ["int"]] ∧
    (selectListed g ids).unmatched = ["p.Test#gone"] ∧
    (∃ id ∈ ids, TestId.Names id (Method.make "p.Test" "t" ["int"]).overloadKey) ∧
    selectListed g ids.reverse = selectListed g ids := by
  intro g ids
  have hcallers : ∀ m ∈ g.callers, m.Conforms := by
    have hlist : g.callers =
        [.make "p.Test" "t" [], .make "p.Test" "t" ["int"], .make "p.Test" "u" []] := rfl
    rw [hlist]
    simp only [List.forall_mem_cons, List.not_mem_nil, false_implies, implies_true, and_true]
    refine ⟨?_, ?_, ?_⟩
    · have hscan : Method.scan? "p.Test:t()".toList = some (.make "p.Test" "t" [], []) := rfl
      exact Method.conforms_of_scan? hscan
    · have hscan : Method.scan? "p.Test:t(int)".toList =
          some (.make "p.Test" "t" ["int"], []) := rfl
      exact Method.conforms_of_scan? hscan
    · have hscan : Method.scan? "p.Test:u()".toList = some (.make "p.Test" "u" [], []) := rfl
      exact Method.conforms_of_scan? hscan
  have htests : (selectListed g ids).tests =
      [.make "p.Test" "t" [], .make "p.Test" "t" ["int"]] := rfl
  obtain ⟨hselected, -, -, -, -, hothers⟩ := selectListed_partitions hcallers ids
  refine ⟨hcallers, htests, rfl, ?_, hothers _ fun id => List.mem_reverse⟩
  have hmem : Method.make "p.Test" "t" ["int"] ∈ (selectListed g ids).tests := by
    rw [htests]
    exact List.mem_cons_of_mem _ (List.mem_singleton_self _)
  exact ((hselected _).mp hmem).2

end CallDepth
