import CallDepth.Text.CharRange

/-!
# Blanks, and cutting them off

The blank characters, and texts without the run of some kind of character at their end or at both
ends.
-/

namespace CallDepth.Text

def blankRanges : List (Nat × Nat) :=
  [(9, 13), (32, 32), (133, 133), (160, 160), (5760, 5760), (8192, 8202), (8232, 8233),
   (8239, 8239), (8287, 8287), (12288, 12288)]

/-- A blank character, line breaks included. -/
def isBlank (c : Char) : Bool := inRanges blankRanges c.toNat

/-- A text without the longest run of characters with the property `p` at its end. -/
def dropTrailing (p : Char → Bool) (cs : List Char) : List Char :=
  (cs.reverse.dropWhile p).reverse

theorem dropTrailing_append_run (p : Char → Bool) (cs : List Char) :
    dropTrailing p cs ++ (cs.reverse.takeWhile p).reverse = cs := by
  simp only [dropTrailing, ← List.reverse_append, List.takeWhile_append_dropWhile,
    List.reverse_reverse]

def trim (cs : List Char) : List Char := dropTrailing isBlank (cs.dropWhile isBlank)

def isLineEnd (c : Char) : Bool := c = '\r' || c = '\n'

/-- A line without the run of line ends that closes it. -/
def dropLineEnd (cs : List Char) : List Char := dropTrailing isLineEnd cs

end CallDepth.Text
