import CallDepth.Text.Run
import CallDepth.Text.Trim

/-!
# Paths

A path is kept as the text that names it, which is also how it is shown. It is followed step by
step, from the root if it starts with a slash and from the working directory if it does not.
-/

namespace CallDepth.Path

def isAbsolute (path : String) : Bool := path.startsWith "/"

/-- The path that `path` is when it is meant from the directory `base`. -/
def join (base path : String) : String :=
  if isAbsolute path then path
  else if base = "" ∨ base.endsWith "/" then base ++ path
  else base ++ "/" ++ path

/-- The path of the directory around what a path names; it is empty for the working directory. -/
def around (path : String) : String :=
  String.ofList (Text.dropTrailing (· ≠ '/') (Text.dropTrailing (· = '/') path.toList))

/-! ### Steps -/

inductive Step where
  /-- Stays in the directory. -/
  | here
  | up
  | down (name : String)
  deriving DecidableEq, Repr

/-- The step that a component of a path means; an empty one means none. -/
def Step.ofComponent? : List Char → Option Step
  | [] => none
  | ['.'] => some .here
  | ['.', '.'] => some .up
  | name => some (.down (String.ofList name))

def steps (path : String) : List Step :=
  (Text.splitOn '/' path.toList).filterMap Step.ofComponent?

/-- Whether a path ends in a slash, and so can only be a directory. -/
def isClosed (path : String) : Bool := path.endsWith "/"

/-- The steps to what a path names, which must be a directory if the path is closed. -/
def fullSteps (path : String) : List Step :=
  if isClosed path then steps path ++ [.here] else steps path

def moves (path : String) : List Step := (steps path).filter (· ≠ .here)

end CallDepth.Path
