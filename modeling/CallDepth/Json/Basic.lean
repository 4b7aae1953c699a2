import Std.Data.ExtTreeMap
import CallDepth.Decimal.Binary64

/-!
# JSON values

The values of JSON documents. A number is a whole number of 64 bits, with or without a sign, or else
a binary number; an object keeps its members in the order of the document.
-/

namespace CallDepth

namespace Json

inductive Number where
  /-- A number from zero to the greatest of 64 bits. -/
  | natural (n : Nat)
  /-- The number `-n`. -/
  | negative (n : Nat)
  | real (x : Decimal.Binary64)
  deriving DecidableEq, Repr

end Json

inductive Json where
  | null
  | bool (b : Bool)
  | number (n : Json.Number)
  | string (s : String)
  | array (items : List Json)
  | object (members : List (String × Json))

namespace Json

def string? : Json → Option String
  | string s => some s
  | _ => none

def array? : Json → Option (List Json)
  | array items => some items
  | _ => none

/-! ### Members in order -/

/-- Members in the order of their keys; of several with one key the last stays. -/
def sortMembers (members : List (String × Json)) : List (String × Json) :=
  (Std.ExtTreeMap.ofList members).toList

mutual

def sorted : Json → Json
  | array items => array (sortedItems items)
  | object members => object (sortMembers (sortedMembers members))
  | other => other

def sortedItems : List Json → List Json
  | [] => []
  | item :: rest => item.sorted :: sortedItems rest

def sortedMembers : List (String × Json) → List (String × Json)
  | [] => []
  | (key, value) :: rest => (key, value.sorted) :: sortedMembers rest

end

end Json

end CallDepth
