/-!
# Ranges of characters

A property of characters is kept as the ascending list of the inclusive ranges of code points that
have it.
-/

namespace CallDepth.Text

/-- Whether `n` lies in one of the ranges; as they ascend, the search ends at the first that starts
beyond `n`. -/
def inRanges : List (Nat × Nat) → Nat → Bool
  | [], _ => false
  | (low, high) :: rest, n => if n < low then false else n ≤ high || inRanges rest n

end CallDepth.Text
