import CallDepth.Method.Grammar
import CallDepth.Text.Trim

/-!
# Records of calls

A line of the call log that starts with `M:` records one call: the caller, a separator that holds
the kind of the call, and the callee, with any text after it. The separator is either two characters
or a space and one ASCII character between parentheses.
-/

namespace CallDepth

/-- One call that the log records; the kind of the call is kept as it stands. -/
structure CallRecord where
  caller : Method
  callee : Method
  callKind : String

namespace CallRecord

def marker : List Char := ['M', ':']

def afterMarker? : List Char → Option (List Char)
  | 'M' :: ':' :: rest => some rest
  | _ => none

theorem afterMarker?_eq_some_iff {cs rest : List Char} :
    afterMarker? cs = some rest ↔ cs = marker ++ rest := by
  unfold afterMarker?
  split
  · simp [marker]
  · rename_i hne
    constructor
    · intro h
      cases h
    · intro h
      exact absurd h (hne rest)

def splitPair? : List Char → Option (List Char × List Char)
  | a :: b :: c :: rest => some ([a, b], c :: rest)
  | _ => none

/-- The kind of the call in the separator at the front of a text, and what follows the separator. -/
def splitKind? (cs : List Char) : Option (List Char × List Char) :=
  match cs with
  | ' ' :: '(' :: kind :: ')' :: c :: rest =>
    if kind.toNat < 128 then some ([kind], c :: rest) else splitPair? cs
  | _ => splitPair? cs

def scan? (cs : List Char) : Option CallRecord := do
  let (caller, cs) ← Method.scan? cs
  let (kind, cs) ← splitKind? cs
  let (callee, _) ← Method.scan? cs
  some { caller, callee, callKind := String.ofList kind }

/-- The record on a line, none if the line has no marker. -/
def parse (line : String) (lineNumber : Nat) : Except Failure (Option CallRecord) :=
  let cs := Text.dropLineEnd line.toList
  match afterMarker? cs with
  | none => .ok none
  | some rest =>
    match scan? rest with
    | some record => .ok (some record)
    | none => .error (.malformedRecord lineNumber (String.ofList cs))

end CallRecord

end CallDepth
