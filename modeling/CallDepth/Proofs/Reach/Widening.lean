import CallDepth.Proofs.CallGraph
import CallDepth.Proofs.Reach.Recorded
import CallDepth.Proofs.Reach.Roots
import CallDepth.Proofs.Scope

/-!
# More tests and more calls

With more tests the start that their types have in common is no longer than before, so no method
leaves the scope; with more calls no chain is lost. What a test reaches is therefore still reached when
tests and calls are added, and along chains that are no longer.
-/

namespace CallDepth

/-! ### Graphs -/

namespace CallGraph

/-- Whether all callees that a graph holds are methods that can be written. -/
def CalleesConform (g : CallGraph) : Prop :=
  ∀ (caller : Method), ∀ callee ∈ g.callees caller, callee.Conforms

theorem calleesConform_ofEdges {edges : List (Method × Method)}
    (h : ∀ edge ∈ edges, edge.2.Conforms) : (ofEdges edges).CalleesConform := by
  intro caller callee hmem
  obtain ⟨edge, hedge, -, rfl⟩ := exists_edge_of_mem_callees hmem
  exact h edge hedge

/-- Of the methods that can be written, a graph holds as callees exactly those that are called. -/
theorem mem_callees_of_hasCall {g : CallGraph} (hg : g.CalleesConform) {caller callee : Method}
    (hcallee : callee.Conforms) (h : g.HasCall caller callee) : callee ∈ g.callees caller := by
  obtain ⟨stored, hmem, hname⟩ := hasCall_iff_mem_callees.mp h
  rwa [← Method.eq_of_canonical_eq (hg caller stored hmem) hcallee hname]

end CallGraph

/-! ### Chains -/

namespace Reach

section

variable {g g' : CallGraph} {scope scope' : String} {root u v m : Method} {n : Nat}

theorem Allowed.mono (hg : g.CalleesConform) (hg' : g'.CalleesConform)
    (hcalls : ∀ u v, g.HasCall u v → g'.HasCall u v) (hscope : scope'.toList <+: scope.toList)
    (h : Allowed g scope u v) : Allowed g' scope' u v := by
  obtain ⟨stored, hmem, hname, hin⟩ := h
  have hcall : g'.HasCall u stored :=
    hcalls u stored (CallGraph.hasCall_iff_mem_callees.mpr ⟨stored, hmem, rfl⟩)
  have hmem' : stored ∈ g'.callees u :=
    CallGraph.mem_callees_of_hasCall hg' (hg u stored hmem) hcall
  exact ⟨stored, hmem', hname, Method.inScope_of_isPrefix hscope hin⟩

theorem Chain.mono (hg : g.CalleesConform) (hg' : g'.CalleesConform)
    (hcalls : ∀ u v, g.HasCall u v → g'.HasCall u v) (hscope : scope'.toList <+: scope.toList)
    (h : Chain g scope root n m) : Chain g' scope' root n m := by
  induction h with
  | call h => exact .call (h.mono hg hg' hcalls hscope)
  | snoc _ h ih => exact .snoc ih (h.mono hg hg' hcalls hscope)

end

end Reach

open Reach

/-- Nothing that a test reaches is lost when tests and calls are added, each index being made with the
scope of its own tests: the larger index has the test, with every method that the smaller one has for
it, and if levels are the lengths of shortest chains, at a level that is no greater. -/
theorem index_widens {g g' : CallGraph} {tests tests' : List Method} (hg : g.CalleesConform)
    (hg' : g'.CalleesConform) (htests : ∀ t ∈ tests, t.Conforms)
    (htests' : ∀ t ∈ tests', t.Conforms) (hcalls : ∀ u v, g.HasCall u v → g'.HasCall u v)
    (hsub : ∀ t ∈ tests, ∃ t' ∈ tests', t'.same t = true) :
    ∀ test ∈ tests, ∀ strategy, ∃ entries entries',
      (Traversal.index ⟨projectScope tests, strategy⟩ g tests).get? test.canonical =
        some entries ∧
      (Traversal.index ⟨projectScope tests', strategy⟩ g' tests').get? test.canonical =
        some entries' ∧
      (∀ entry ∈ entries, ∃ entry' ∈ entries', entry'.callee = entry.callee) ∧
      (strategy = .shortestDepth → ∀ entry ∈ entries, ∀ entry' ∈ entries',
        entry'.callee = entry.callee → entry'.level ≤ entry.level) := by
  intro test htest strategy
  have hsubset : tests ⊆ tests' := by
    intro t ht
    obtain ⟨t', ht', hsame⟩ := hsub t ht
    rwa [← Method.eq_of_canonical_eq (htests' t' ht') (htests t ht) (of_decide_eq_true hsame)]
  have hscope := projectScope_isPrefix (List.ne_nil_of_mem htest) hsubset
  have hmono : ∀ n m, Chain g (projectScope tests) test n m →
      Chain g' (projectScope tests') test n m :=
    fun n m h => h.mono hg hg' hcalls hscope
  refine ⟨_, _, Traversal.get?_index htest, Traversal.get?_index (hsubset htest), ?_, ?_⟩
  · intro entry hentry
    obtain ⟨m, hm, hchain⟩ := hasChain_of_mem_entries hentry
    have hmem := (mem_names_entries_iff ⟨projectScope tests', strategy⟩).mpr
      ⟨entry.level, hmono _ m hchain⟩
    rw [hm] at hmem
    exact List.mem_map.mp hmem
  · rintro rfl entry hentry entry' hentry' hname
    obtain ⟨m, hm, hchain⟩ := hasChain_of_mem_entries hentry
    -- the chain that gives the level in the smaller graph is one in the larger graph too
    exact (isLeast_of_mem_breadthFirst hentry' (hm.trans hname.symm)).2 (hmono _ m hchain)

/-- A test with three methods of its own type in a row, and one of another type. -/
def callsInRow : List (Method × Method) :=
  [(.make "p.Test" "t" [], .make "p.Test" "a" []), (.make "p.Test" "a" [], .make "p.Test" "b" []),
    (.make "p.Test" "b" [], .make "p.Test" "c" []), (.make "p.Test" "t" [], .make "p.Other" "o" [])]

/-- The same with a shorter way to the last method, by way of the other type. -/
def callsWithShortcut : List (Method × Method) :=
  callsInRow ++ [(.make "p.Other" "o" [], .make "p.Test" "c" [])]

theorem Method.conforms_make_nil {type name : String}
    (htype : type.toList ≠ [] ∧ type.toList.all isTypeChar = true)
    (hname : name.toList ≠ [] ∧ name.toList.all isNameChar = true) :
    (make type name []).Conforms := by
  refine ⟨⟨type.toList, name.toList, [], htype.1, hname.1, List.all_eq_true.mp htype.2,
    List.all_eq_true.mp hname.2, nofun⟩, ?_⟩
  simp [Form.method, make, Text.splitOn]

theorem conforms_callsWithShortcut : ∀ edge ∈ callsWithShortcut, edge.2.Conforms := by
  have hmethod : ∀ edge ∈ callsWithShortcut, ∃ type name, edge.2 = .make type name [] ∧
      (type.toList ≠ [] ∧ type.toList.all Method.isTypeChar = true) ∧
      (name.toList ≠ [] ∧ name.toList.all Method.isNameChar = true) := by
    intro edge hedge
    simp only [callsWithShortcut, callsInRow, List.cons_append, List.nil_append, List.mem_cons,
      List.not_mem_nil, or_false] at hedge
    rcases hedge with rfl | rfl | rfl | rfl | rfl
    all_goals exact ⟨_, _, rfl, by decide +kernel, by decide +kernel⟩
  intro edge hedge
  obtain ⟨type, name, heq, htype, hname⟩ := hmethod edge hedge
  rw [heq]
  exact Method.conforms_make_nil htype hname

theorem index_widens_shortcut :
    let test : Method := .make "p.Test" "t" []
    let tests := [test]
    let tests' := [.make "p.Best" "u" [], test]
    let g := CallGraph.ofEdges callsInRow
    let g' := CallGraph.ofEdges callsWithShortcut
    g.CalleesConform ∧ g'.CalleesConform ∧ (∀ t ∈ tests, t.Conforms) ∧
    (∀ t ∈ tests', t.Conforms) ∧ (∀ u v, g.HasCall u v → g'.HasCall u v) ∧
    (∀ t ∈ tests, ∃ t' ∈ tests', t'.same t = true) ∧
    ∃ entries entries',
      (Traversal.index ⟨projectScope tests, .shortestDepth⟩ g tests).get? test.canonical =
        some entries ∧
      (Traversal.index ⟨projectScope tests', .shortestDepth⟩ g' tests').get? test.canonical =
        some entries' ∧
      (∀ entry ∈ entries, ∃ entry' ∈ entries', entry'.callee = entry.callee) ∧
      ∀ entry ∈ entries, ∀ entry' ∈ entries', entry'.callee = entry.callee →
        entry'.level ≤ entry.level := by
  intro test tests tests' g g'
  have hg' : g'.CalleesConform := CallGraph.calleesConform_ofEdges conforms_callsWithShortcut
  have hg : g.CalleesConform := CallGraph.calleesConform_ofEdges
    fun edge hedge => conforms_callsWithShortcut edge (List.mem_append_left _ hedge)
  have htest : test.Conforms :=
    Method.conforms_make_nil (by decide +kernel) (by decide +kernel)
  have hother : (Method.make "p.Best" "u" []).Conforms :=
    Method.conforms_make_nil (by decide +kernel) (by decide +kernel)
  have htests : ∀ t ∈ tests, t.Conforms := by simpa [tests] using htest
  have htests' : ∀ t ∈ tests', t.Conforms := by simpa [tests'] using ⟨hother, htest⟩
  have hcalls : ∀ u v, g.HasCall u v → g'.HasCall u v := by
    intro u v h
    obtain ⟨edge, hedge, hnames⟩ := CallGraph.hasCall_ofEdges_iff.mp h
    exact CallGraph.hasCall_ofEdges_iff.mpr ⟨edge, List.mem_append_left _ hedge, hnames⟩
  have hsub : ∀ t ∈ tests, ∃ t' ∈ tests', t'.same t = true := by
    simp [tests, tests', Method.same]
  obtain ⟨entries, entries', hentries, hentries', hreached, hlevels⟩ :=
    index_widens hg hg' htests htests' hcalls hsub test (List.mem_singleton_self _) .shortestDepth
  exact ⟨hg, hg', htests, htests', hcalls, hsub, entries, entries', hentries, hentries', hreached,
    hlevels rfl⟩

end CallDepth
