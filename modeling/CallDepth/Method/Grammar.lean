import CallDepth.Failure
import CallDepth.Method
import CallDepth.Text.Run
import CallDepth.Text.Word

/-!
# The grammar of methods

A method is written as a declaring type, a colon, a name, and the parameters between parentheses.
Each part is a run of its own class of characters, and none of the classes holds the mark that ends
the run, so a text starts with a method in at most one way.
-/

namespace CallDepth.Method

/-! ### Characters of the parts -/

def isTypeChar (c : Char) : Bool := Text.isWord c || c = '[' || c = ']' || c = '$' || c = '.'

def isNameChar (c : Char) : Bool := Text.isWord c || c = '<' || c = '>' || c = '$'

/-- A character of the parameters, the comma between them included. -/
def isParamChar (c : Char) : Bool :=
  Text.isWord c || c = '.' || c = '[' || c = ']' || c = '$' || c = ','

theorem not_isTypeChar_colon : isTypeChar ':' = false := by decide

theorem not_isNameChar_paren : isNameChar '(' = false := by decide

theorem not_isParamChar_paren : isParamChar ')' = false := by decide

/-! ### Reading -/

/-- The method at the front of a text, and what follows it. -/
def scan? (cs : List Char) : Option (Method × List Char) := do
  let (declaringType, cs) ← Text.takeRun? isTypeChar ':' cs
  let (name, cs) ← Text.takeRun? isNameChar '(' cs
  let (params, rest) ← Text.takeRun? isParamChar ')' cs
  if declaringType = [] ∨ name = [] then none
  else
    some (make (String.ofList declaringType) (String.ofList name)
      ((Text.splitOn ',' params).map String.ofList), rest)

/-- The method that a text starts with, and the number of bytes that it takes. -/
def leading? (text : String) : Option (Method × Nat) :=
  (scan? text.toList).map fun (m, rest) =>
    (m, text.utf8ByteSize - (String.ofList rest).utf8ByteSize)

def parse? (text : String) : Option Method :=
  match scan? text.toList with
  | some (m, []) => some m
  | _ => none

def parse (text : String) : Except Failure Method :=
  match parse? text with
  | some m => .ok m
  | none => .error (.malformedMethod text)

end CallDepth.Method
