import Mathlib.Data.Finset.Card
import Mathlib.Data.Finset.SDiff
import CallDepth.Proofs.Reach.Chain
import CallDepth.Reach.DepthFirst

/-!
# The recursive walk

The depth-first order, said by recursion on the calls: a walk goes through the callees of a method
in order, and walks on from each that it records before it looks at the next. The traversal with a
stack gives the same entries, as every frame of its stack is a call of the walk that is under way.
-/

namespace CallDepth.Reach

/-! ### How much is left to walk -/

def unrecorded (g : CallGraph) (out : List CallEntry) : Nat :=
  (g.callerNames.toFinset \ (names out).toFinset).card

theorem unrecorded_subset {g : CallGraph} {out out' : List CallEntry} (h : out <+: out') :
    g.callerNames.toFinset \ (names out').toFinset ⊆ g.callerNames.toFinset \ (names out).toFinset := by
  refine Finset.sdiff_subset_sdiff (Finset.Subset.refl _) ?_
  intro name hname
  rw [List.mem_toFinset] at hname ⊢
  exact (h.map CallEntry.callee).subset hname

theorem unrecorded_le {g : CallGraph} {out out' : List CallEntry} (h : out <+: out') :
    unrecorded g out' ≤ unrecorded g out :=
  Finset.card_le_card (unrecorded_subset h)

theorem unrecorded_record_lt {g : CallGraph} {out : List CallEntry} {m : Method} (level : Nat)
    (hcaller : m.canonical ∈ g.callerNames) (hnew : m.canonical ∉ names out) :
    unrecorded g (out ++ [⟨m.canonical, level⟩]) < unrecorded g out := by
  refine Finset.card_lt_card ((Finset.ssubset_iff_of_subset ?_).mpr ⟨m.canonical, ?_, ?_⟩)
  · exact unrecorded_subset (List.prefix_append _ _)
  · rw [Finset.mem_sdiff, List.mem_toFinset, List.mem_toFinset]
    exact ⟨hcaller, hnew⟩
  · rw [Finset.mem_sdiff, List.mem_toFinset, List.mem_toFinset]
    exact fun h => h.2 (by simp [names])

/-! ### The walk -/

/-- Walks over callees that are met at the given level. What is recorded only grows. -/
def walkOver (g : CallGraph) (scope : String) :
    Nat → List Method → (out : List CallEntry) → { out' : List CallEntry // out <+: out' }
  | _, [], out => ⟨out, List.prefix_rfl⟩
  | level, m :: rest, out =>
    if Admits scope (names out) m then
      let inner := walkOver g scope (level + 1) (g.callees m) (out ++ [⟨m.canonical, level⟩])
      let after := walkOver g scope level rest inner.val
      ⟨after.val, (List.prefix_append _ _).trans (inner.property.trans after.property)⟩
    else walkOver g scope level rest out
termination_by _ callees out => (unrecorded g out, callees.length)
decreasing_by
  · rename_i hadmits
    by_cases hcaller : m.canonical ∈ g.callerNames
    · exact Prod.Lex.left _ _ (unrecorded_record_lt level hcaller hadmits.1)
    · rw [CallGraph.callees_eq_nil_of_not_mem hcaller]
      exact Prod.Lex.right' _ (unrecorded_le (List.prefix_append _ _)) (by simp)
  · exact Prod.Lex.right' _
      (unrecorded_le ((List.prefix_append _ _).trans inner.property)) (by simp)
  · exact Prod.Lex.right _ (by simp)

def walk (g : CallGraph) (scope : String) (node : Method) (depth : Nat) (out : List CallEntry) :
    List CallEntry :=
  (walkOver g scope depth (g.callees node) out).val

section

variable {g : CallGraph} {scope : String} {level : Nat} {m : Method} {rest : List Method}
  {out : List CallEntry}

theorem walkOver_nil : (walkOver g scope level [] out).val = out := by
  rw [walkOver]

theorem walkOver_record (h : Admits scope (names out) m) :
    (walkOver g scope level (m :: rest) out).val =
      (walkOver g scope level rest
        (walk g scope m (level + 1) (out ++ [⟨m.canonical, level⟩]))).val := by
  rw [walkOver, if_pos h]
  rfl

theorem walkOver_skip (h : ¬ Admits scope (names out) m) :
    (walkOver g scope level (m :: rest) out).val = (walkOver g scope level rest out).val := by
  rw [walkOver, if_neg h]

def visit (scope : String) (next : Method → Nat → List CallEntry → List CallEntry) (depth : Nat)
    (out : List CallEntry) (callee : Method) : List CallEntry :=
  if Admits scope (names out) callee then
    next callee (depth + 1) (out ++ [⟨callee.canonical, depth⟩])
  else out

theorem walkOver_eq_foldl (callees : List Method) (out : List CallEntry) :
    (walkOver g scope level callees out).val =
      callees.foldl (visit scope (walk g scope) level) out := by
  induction callees generalizing out with
  | nil => exact walkOver_nil
  | cons m rest ih =>
    rw [List.foldl_cons]
    by_cases h : Admits scope (names out) m
    · rw [walkOver_record h, ih, visit, if_pos h]
    · rw [walkOver_skip h, ih, visit, if_neg h]

theorem eq_walk_of_recursion {next : Method → Nat → List CallEntry → List CallEntry}
    (hnext : ∀ node depth out,
      next node depth out = (g.callees node).foldl (visit scope next depth) out) :
    next = walk g scope := by
  have key : ∀ depth callees out,
      callees.foldl (visit scope next depth) out = (walkOver g scope depth callees out).val := by
    intro depth callees out
    induction depth, callees, out using walkOver.induct g scope with
    | case1 depth out => exact walkOver_nil.symm
    | case2 depth m rest out hadmits inner ihinner ihafter =>
      rw [walkOver_record hadmits, List.foldl_cons, visit, if_pos hadmits, hnext, ihinner]
      exact ihafter
    | case3 depth m rest out hskip ih =>
      rw [walkOver_skip hskip, List.foldl_cons, visit, if_neg hskip, ih]
  funext node depth out
  rw [hnext, key, walk]

end

/-! ### The traversal with a stack -/

/-- The walks under way that the frames of a stack stand for, each carried to its end. -/
def unwind (g : CallGraph) (scope : String) (stack : List Frame) (out : List CallEntry) :
    List CallEntry :=
  stack.foldl (fun out frame => (walkOver g scope frame.level frame.callees out).val) out

theorem unwind_frames_append (g : CallGraph) (scope : String) (m : Method) (level : Nat)
    (stack : List Frame) (out : List CallEntry) :
    unwind g scope (frames g m level ++ stack) out =
      unwind g scope stack (walk g scope m level out) := by
  unfold frames walk CallGraph.callees
  cases g.callees? m with
  | none =>
    simp only [List.nil_append, Option.map_none, Option.getD_none]
    rw [walkOver_nil]
  | some callees => rfl

/-- The traversal carries every walk on its stack to its end, the one on top first. -/
theorem toList_depthFirstFrom (g : CallGraph) (scope : String) (stack : List Frame) (t : Trail) :
    (depthFirstFrom g scope stack t).toList = unwind g scope stack t.toList := by
  induction stack, t using depthFirstFrom.induct g scope with
  | case1 t =>
    rw [depthFirstFrom]
    rfl
  | case2 level stack t ih =>
    rw [depthFirstFrom, ih, unwind, unwind, List.foldl_cons, walkOver_nil]
  | case3 m rest level stack t haccepts ih =>
    rw [depthFirstFrom, if_pos haccepts, ih, unwind_frames_append, Trail.toList_record]
    rw [unwind, unwind, List.foldl_cons, List.foldl_cons,
      walkOver_record (accepts_iff_admits.mp haccepts)]
  | case4 m rest level stack t haccepts ih =>
    have hskip : ¬ Admits scope (names t.toList) m :=
      fun hadmits => haccepts (accepts_iff_admits.mpr hadmits)
    rw [depthFirstFrom, if_neg haccepts, ih]
    rw [unwind, unwind, List.foldl_cons, List.foldl_cons, walkOver_skip hskip]

theorem depthFirst_eq_walk (g : CallGraph) (scope : String) (root : Method) :
    depthFirst g scope root = walk g scope root 1 [] := by
  have h := unwind_frames_append g scope root 1 [] []
  rw [List.append_nil] at h
  rw [depthFirst, toList_depthFirstFrom, Trail.toList_empty, h]
  rfl

/-- The traversal with a stack gives what the recursive walk from the root gives: the same methods,
at the same levels, in the same order. The walk is the one function with the recursion that is
written out here. -/
theorem depthFirst_is_recursive_walk (g : CallGraph) (scope : String) (root : Method) :
    (∀ next : Method → Nat → List CallEntry → List CallEntry,
      (∀ node depth out, next node depth out =
        (g.callees node).foldl
          (fun out callee =>
            if callee.canonical ∉ names out ∧ callee.inScope scope = true then
              next callee (depth + 1) (out ++ [⟨callee.canonical, depth⟩])
            else out)
          out) ↔ next = walk g scope) ∧
      depthFirst g scope root = walk g scope root 1 [] := by
  refine ⟨fun next => ⟨fun hnext => eq_walk_of_recursion hnext, ?_⟩, depthFirst_eq_walk g scope root⟩
  rintro rfl node depth out
  exact walkOver_eq_foldl (g.callees node) out

end CallDepth.Reach
