import CallDepth.CallGraph
import CallDepth.Reach.Trail

/-!
# Depth first

The methods that are reached from a root, depth first: each callee in canonical order is followed by
everything that it leads to, before the next callee is looked at. A method is recorded where it is
first met, at a level one more than that of its caller. The callers under way wait on a stack, each
with the callees that are left of it.
-/

namespace CallDepth.Reach

/-- The callees of a caller that are left to meet, and the level at which they are met. -/
structure Frame where
  callees : List Method
  level : Nat

def frames (g : CallGraph) (m : Method) (level : Nat) : List Frame :=
  match g.callees? m with
  | none => []
  | some callees => [⟨callees.toList, level⟩]

/-- How many steps it takes to empty a stack on which nothing is put. -/
def stackSize (stack : List Frame) : Nat :=
  (stack.map fun frame => frame.callees.length + 1).foldr (· + ·) 0

/-- Takes the next callee of the frame on top, or drops the frame if there is none, until the stack
is empty. -/
def depthFirstFrom (g : CallGraph) (scope : String) : List Frame → Trail → Trail
  | [], t => t
  | ⟨[], _⟩ :: stack, t => depthFirstFrom g scope stack t
  | ⟨m :: rest, level⟩ :: stack, t =>
    if t.accepts scope m then
      depthFirstFrom g scope (frames g m (level + 1) ++ ⟨rest, level⟩ :: stack) (t.record m level)
    else depthFirstFrom g scope (⟨rest, level⟩ :: stack) t
termination_by stack t => (t.missing g.callerNames, stackSize stack)
decreasing_by
  · exact Prod.Lex.right _ (by simp [stackSize])
  · rename_i haccepts
    have hnew : t.contains m = false := by
      simp only [Trail.accepts, Bool.and_eq_true, Bool.not_eq_true'] at haccepts
      exact haccepts.1
    by_cases hcaller : m.canonical ∈ g.callerNames
    · exact Prod.Lex.left _ _ (Trail.missing_record_lt level hcaller hnew)
    · have hnone : g.callees? m = none := by
        rw [CallGraph.mem_callerNames_iff] at hcaller
        simpa using hcaller
      rw [Trail.missing_record_of_not_mem t level hcaller]
      exact Prod.Lex.right _ (by simp [stackSize, frames, hnone])
  · exact Prod.Lex.right _ (by simp [stackSize])

def depthFirst (g : CallGraph) (scope : String) (root : Method) : List CallEntry :=
  (depthFirstFrom g scope (frames g root 1) .empty).toList

end CallDepth.Reach
