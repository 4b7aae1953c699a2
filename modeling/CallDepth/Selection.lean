import Std.Data.ExtTreeSet
import CallDepth.CallGraph
import CallDepth.Text.Digit

/-!
# Selecting the tests

The unit tests are callers of the graph. They are found by how their class and method are named, or
by a list of identifiers `type#name`, each of which selects every overload that it names.
-/

namespace CallDepth

/-! ### By name -/

/-- How unit tests are named: the end of the class and the start of the method. -/
structure Naming where
  classSuffix : String
  methodPrefix : String
  deriving DecidableEq, Repr

namespace Naming

def standard : Naming := ⟨"Test", "test"⟩

def isUnitTest (naming : Naming) (m : Method) : Bool :=
  m.declaringType.endsWith naming.classSuffix && m.name.startsWith naming.methodPrefix

def select (naming : Naming) (g : CallGraph) : List Method := g.callers.filter naming.isUnitTest

end Naming

/-! ### By a list of identifiers -/

namespace TestId

/-- A character of the arguments that a run of a parameterized test shows. -/
def isArgumentChar (c : Char) : Bool := Text.isWord c || Text.isBlank c || c = ','

theorem not_isArgumentChar_paren : isArgumentChar '(' = false := by decide

/-- A text without the arguments and the number `(args)[n]` of a run at its end, if it ends in
them. -/
def withoutRun? (cs : List Char) : Option (List Char) := do
  match cs.reverse with
  | ']' :: back =>
    let (number, back) ← Text.takeRun? Text.isDigit '[' back
    match number, back with
    | _ :: _, ')' :: back =>
      let (arguments, back) ← Text.takeRun? isArgumentChar '(' back
      if arguments = [] then none else some back.reverse
    | _, _ => none
  | _ => none

/-- The identifier of a test without blanks at its ends and without the mark of a single run. -/
def normalize (id : String) : String :=
  let cs := Text.trim id.toList
  String.ofList ((withoutRun? cs).getD cs)

end TestId

/-- The callers that a list of identifiers selects, and the identifiers that select none, both in
order. -/
structure ListSelection where
  tests : List Method
  unmatched : List String

def selectListed (g : CallGraph) (ids : List String) : ListSelection :=
  let wanted := Std.ExtTreeSet.ofList (ids.map TestId.normalize)
  let tests := g.callers.filter fun m => wanted.contains m.overloadKey
  let matched := Std.ExtTreeSet.ofList (tests.map Method.overloadKey)
  { tests, unmatched := wanted.toList.filter fun id => !matched.contains id }

end CallDepth
