import CallDepth.CallGraph
import CallDepth.Reach.Trail

/-!
# Breadth first

The methods that are reached from a root, nearest first: the callees of the root, then the callees
of those, and so on. The methods that are met wait in a queue until their own callees are met. A
method is recorded when it is first met, so its level is the length of a shortest chain of calls to
it.
-/

namespace CallDepth.Reach

/-! ### The queue -/

/-- What waits in a queue, first come first. -/
def waiting {α : Type} (queue : Std.Queue α) : List α := queue.dList ++ queue.eList.reverse

theorem waiting_empty {α : Type} : waiting (∅ : Std.Queue α) = [] := rfl

theorem waiting_enqueue {α : Type} (value : α) (queue : Std.Queue α) :
    waiting (queue.enqueue value) = waiting queue ++ [value] := by
  simp [waiting, Std.Queue.enqueue]

theorem waiting_eq_nil_of_dequeue? {α : Type} {queue : Std.Queue α}
    (h : queue.dequeue? = none) : waiting queue = [] := by
  obtain ⟨eList, dList⟩ := queue
  cases dList with
  | cons d ds => simp [Std.Queue.dequeue?] at h
  | nil =>
    cases hback : eList.reverse with
    | nil => simp [waiting, hback]
    | cons d ds => simp [Std.Queue.dequeue?, hback] at h

theorem waiting_eq_cons_of_dequeue? {α : Type} {queue rest : Std.Queue α} {value : α}
    (h : queue.dequeue? = some (value, rest)) : waiting queue = value :: waiting rest := by
  obtain ⟨eList, dList⟩ := queue
  cases dList with
  | cons d ds =>
    simp only [Std.Queue.dequeue?, Option.some.injEq, Prod.mk.injEq] at h
    obtain ⟨rfl, rfl⟩ := h
    rfl
  | nil =>
    cases hback : eList.reverse with
    | nil => simp [Std.Queue.dequeue?, hback] at h
    | cons d ds =>
      simp only [Std.Queue.dequeue?, hback, Option.some.injEq, Prod.mk.injEq] at h
      obtain ⟨rfl, rfl⟩ := h
      simp [waiting, hback]

/-! ### Meeting the callees of a method -/

def calleeNames (g : CallGraph) : List String :=
  g.rows.toList.flatMap fun entry => entry.2.2.names

theorem mem_calleeNames {g : CallGraph} {m callee : Method} (h : callee ∈ g.callees m) :
    callee.canonical ∈ calleeNames g := by
  unfold CallGraph.callees CallGraph.callees? at h
  cases hrow : g.rows[m.canonical]? with
  | none => simp [hrow] at h
  | some row =>
    simp only [hrow, Option.map_some, Option.getD_some] at h
    refine List.mem_flatMap.mpr ⟨(m.canonical, row), ?_, ?_⟩
    · exact Std.ExtTreeMap.mem_toList_iff_getElem?_eq_some.mpr hrow
    · rw [← MethodSet.map_canonical_toList]
      exact List.mem_map_of_mem h

/-- A trail, and the methods that wait for their callees to be met, each with the level of these. -/
structure Sweep where
  trail : Trail
  queue : Std.Queue (Method × Nat)

def Sweep.meet (scope : String) (level : Nat) (s : Sweep) (m : Method) : Sweep :=
  if s.trail.accepts scope m then ⟨s.trail.record m level, s.queue.enqueue (m, level + 1)⟩ else s

/-- A method that is met leaves no more to record, and waits only if it leaves less. -/
theorem Sweep.missing_meet_le (names : List String) (scope : String) (level : Nat) (s : Sweep)
    {m : Method} (h : m.canonical ∈ names) :
    (s.meet scope level m).trail.missing names + (waiting (s.meet scope level m).queue).length ≤
      s.trail.missing names + (waiting s.queue).length := by
  unfold Sweep.meet
  split
  · rename_i haccepts
    have hnew : s.trail.contains m = false := by
      simp only [Trail.accepts, Bool.and_eq_true, Bool.not_eq_true'] at haccepts
      exact haccepts.1
    have := Trail.missing_record_lt level h hnew
    simp only [waiting_enqueue, List.length_append, List.length_singleton]
    omega
  · exact Nat.le_refl _

def Sweep.expand (g : CallGraph) (scope : String) (s : Sweep) (m : Method) (level : Nat) : Sweep :=
  (g.callees m).foldl (Sweep.meet scope level) s

theorem Sweep.missing_expand_le (g : CallGraph) (scope : String) (s : Sweep) (m : Method)
    (level : Nat) :
    (s.expand g scope m level).trail.missing (calleeNames g) +
        (waiting (s.expand g scope m level).queue).length ≤
      s.trail.missing (calleeNames g) + (waiting s.queue).length := by
  have hmem : ∀ callee ∈ g.callees m, callee.canonical ∈ calleeNames g :=
    fun callee h => mem_calleeNames h
  unfold Sweep.expand
  generalize g.callees m = callees at hmem ⊢
  induction callees generalizing s with
  | nil => simp
  | cons c cs ih =>
    have hc := Sweep.missing_meet_le (calleeNames g) scope level s (hmem c (List.mem_cons_self ..))
    have hcs := ih (s.meet scope level c) fun x hx => hmem x (List.mem_cons_of_mem _ hx)
    simp only [List.foldl_cons]
    omega

/-! ### The traversal -/

/-- Meets the callees of the method that has waited longest, until none waits. -/
def breadthFirstFrom (g : CallGraph) (scope : String) (s : Sweep) : Trail :=
  match _hnext : s.queue.dequeue? with
  | none => s.trail
  | some ((m, level), queue) =>
    breadthFirstFrom g scope (Sweep.expand g scope ⟨s.trail, queue⟩ m level)
termination_by s.trail.missing (calleeNames g) + (waiting s.queue).length
decreasing_by
  have hle := Sweep.missing_expand_le g scope ⟨s.trail, queue⟩ m level
  rw [waiting_eq_cons_of_dequeue? _hnext, List.length_cons]
  simp only at hle
  omega

def breadthFirst (g : CallGraph) (scope : String) (root : Method) : List CallEntry :=
  (breadthFirstFrom g scope ⟨.empty, (∅ : Std.Queue _).enqueue (root, 1)⟩).toList

end CallDepth.Reach
