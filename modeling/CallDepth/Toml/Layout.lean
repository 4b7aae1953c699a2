import CallDepth.Toml.Scalar

/-!
# Lines, blanks and comments in TOML

What stands between the parts of a document and means nothing.
-/

namespace CallDepth.Toml

def isBlank (c : Char) : Bool := c = ' ' || c = '\t'

/-- A character that may stand in a comment or a string: none that controls, the tab apart. -/
def isPlain (c : Char) : Bool := c = '\t' || (' ' ≤ c && c ≠ '\x7f')

def dropBlanks (cs : Text) : Text := cs.dropWhile isBlank

def newline : Text → Option Text
  | '\n' :: rest => some rest
  | '\r' :: '\n' :: rest => some rest
  | _ => none

/-- What follows a comment, or the text itself if it does not start with one. -/
def dropComment : Text → Text
  | '#' :: rest => rest.dropWhile isPlain
  | cs => cs

/-- What follows a line of which nothing but a comment is left. -/
def lineEnd (cs : Text) : Option Text :=
  match dropComment (dropBlanks cs) with
  | [] => some []
  | cs => newline cs

def dropLines : Text → Text
  | '\r' :: '\n' :: rest => dropLines rest
  | c :: rest => if isBlank c || c = '\n' then dropLines rest else c :: rest
  | [] => []

def dropGaps (inComment : Bool) : Text → Text
  | '\r' :: '\n' :: rest => dropGaps false rest
  | c :: rest =>
    if c = '\n' then dropGaps false rest
    else if inComment then if isPlain c then dropGaps true rest else c :: rest
    else if c = '#' then dropGaps true rest
    else if isBlank c then dropGaps false rest
    else c :: rest
  | [] => []

/-! ### The length of what follows -/

theorem length_dropBlanks (cs : Text) : (dropBlanks cs).length ≤ cs.length :=
  (List.dropWhile_suffix isBlank).length_le

theorem length_newline {cs rest : Text} (h : newline cs = some rest) :
    rest.length < cs.length := by
  unfold newline at h
  split at h <;> cases h
  · simp
  · simp only [List.length_cons]
    omega

theorem length_dropLines (cs : Text) : (dropLines cs).length ≤ cs.length := by
  fun_induction dropLines cs with
  | case1 rest ih =>
    simp only [List.length_cons]
    omega
  | case2 c rest _ _ ih =>
    simp only [List.length_cons]
    omega
  | case3 => exact Nat.le_refl _
  | case4 => exact Nat.le_refl _

end CallDepth.Toml
