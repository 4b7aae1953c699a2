import CallDepth.CallIndex
import CallDepth.Reach.BreadthFirst
import CallDepth.Reach.DepthFirst

/-!
# Traversals

How the level of a method that is reached along several chains of calls is chosen, and the index of
what each of several roots reaches.
-/

namespace CallDepth

inductive Strategy where
  /-- The level at which a depth-first traversal first meets the method. -/
  | depthFirst
  /-- The length of a shortest chain of calls. -/
  | shortestDepth
  deriving DecidableEq, Repr

namespace Strategy

def word : Strategy → String
  | depthFirst => "depth-first"
  | shortestDepth => "shortest-depth"

def name : Strategy → String
  | depthFirst => "DepthFirst"
  | shortestDepth => "ShortestDepth"

def ofWord? (word : String) : Option Strategy :=
  [depthFirst, shortestDepth].find? fun strategy => strategy.word = word

end Strategy

/-- What a traversal follows: the start of the declaring types in the project, and the strategy. -/
structure Traversal where
  scope : String
  strategy : Strategy

namespace Traversal

def entries (t : Traversal) (g : CallGraph) (root : Method) : List CallEntry :=
  match t.strategy with
  | .depthFirst => Reach.depthFirst g t.scope root
  | .shortestDepth => Reach.breadthFirst g t.scope root

def index (t : Traversal) (g : CallGraph) (roots : List Method) : CallIndex :=
  CallIndex.ofList (roots.map fun root => (root.canonical, t.entries g root))

end Traversal

end CallDepth
