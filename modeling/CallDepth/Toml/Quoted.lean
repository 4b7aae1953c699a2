import CallDepth.Toml.Layout

/-!
# Strings in TOML

A string stands between quotes, of one kind or the other, on one line or, between three of them, on
several. Only between double quotes does a backslash stand for anything but itself.
-/

namespace CallDepth.Toml

/-! ### Escapes -/

/-- The character whose code `n` hexadecimal digits give. -/
def codePoint (n : Nat) (cs : Text) : Option (Char × Text) :=
  let ds := cs.take n
  let code := digitsValue 16 ds
  if ds.length = n ∧ ds.all isHexDigit ∧ (code < 0xD800 ∨ (0xDFFF < code ∧ code < 0x110000)) then
    some (Char.ofNat code, cs.drop n)
  else none

def escape : Text → Option (Char × Text)
  | '"' :: rest => some ('"', rest)
  | '\\' :: rest => some ('\\', rest)
  | 'b' :: rest => some ('\x08', rest)
  | 'f' :: rest => some ('\x0c', rest)
  | 'n' :: rest => some ('\n', rest)
  | 'r' :: rest => some ('\r', rest)
  | 't' :: rest => some ('\t', rest)
  | 'u' :: rest => codePoint 4 rest
  | 'U' :: rest => codePoint 8 rest
  | _ => none

/-- What follows a line that a backslash joins to the next one with a character in it. -/
def joinedLine (cs : Text) : Option Text := (newline (dropBlanks cs)).map dropLines

theorem length_codePoint {n : Nat} {cs rest : Text} {c : Char}
    (h : codePoint n cs = some (c, rest)) : rest.length ≤ cs.length := by
  simp only [codePoint] at h
  split at h
  · simp only [Option.some.injEq, Prod.mk.injEq] at h
    obtain ⟨-, rfl⟩ := h
    simp
  · simp at h

theorem length_escape {cs rest : Text} {c : Char} (h : escape cs = some (c, rest)) :
    rest.length < cs.length := by
  unfold escape at h
  split at h
  case h_8 =>
    have := length_codePoint h
    simp only [List.length_cons]
    omega
  case h_9 =>
    have := length_codePoint h
    simp only [List.length_cons]
    omega
  case h_10 => simp at h
  all_goals
    simp only [Option.some.injEq, Prod.mk.injEq] at h
    obtain ⟨-, rfl⟩ := h
    simp

theorem length_joinedLine {cs rest : Text} (h : joinedLine cs = some rest) :
    rest.length < cs.length := by
  obtain ⟨r, hr, rfl⟩ := Option.map_eq_some_iff.mp h
  have h1 := length_dropBlanks cs
  have h2 := length_newline hr
  have h3 := length_dropLines r
  omega

/-! ### On one line -/

/-- Reads up to the double quote that ends a string; `done` holds its characters so far, last
first. -/
def basicFrom (done : List Char) (cs : Text) : Option (String × Text) :=
  match cs with
  | [] => none
  | '"' :: rest => some (String.ofList done.reverse, rest)
  | '\\' :: rest =>
    match _hescape : escape rest with
    | none => none
    | some (c, rest) => basicFrom (c :: done) rest
  | c :: rest => if isPlain c then basicFrom (c :: done) rest else none
termination_by cs.length
decreasing_by
  · have := length_escape _hescape
    simp only [List.length_cons]
    omega
  · simp

def literal (cs : Text) : Option (String × Text) :=
  match cs.dropWhile fun c => isPlain c && c ≠ '\'' with
  | '\'' :: rest => some (String.ofList (cs.takeWhile fun c => isPlain c && c ≠ '\''), rest)
  | _ => none

/-! ### On several lines -/

/-- Up to two quotes before the three that end a string belong to it; `done` holds its characters,
last first. -/
def closing (quote : Char) (done : List Char) : Text → String × Text
  | c :: rest =>
    if c = quote then
      match rest with
      | d :: rest =>
        if d = quote then (String.ofList (quote :: quote :: done).reverse, rest)
        else (String.ofList (quote :: done).reverse, d :: rest)
      | [] => (String.ofList (quote :: done).reverse, [])
    else (String.ofList done.reverse, c :: rest)
  | [] => (String.ofList done.reverse, [])

def basicLinesFrom (done : List Char) (cs : Text) : Option (String × Text) :=
  match cs with
  | [] => none
  | '"' :: '"' :: '"' :: rest => some (closing '"' done rest)
  | '\r' :: '\n' :: rest => basicLinesFrom ('\n' :: done) rest
  | '\\' :: rest =>
    match _hjoined : joinedLine rest with
    | some rest => basicLinesFrom done rest
    | none =>
      match _hescape : escape rest with
      | none => none
      | some (c, rest) => basicLinesFrom (c :: done) rest
  | c :: rest => if isPlain c || c = '\n' then basicLinesFrom (c :: done) rest else none
termination_by cs.length
decreasing_by
  · simp only [List.length_cons]
    omega
  · have := length_joinedLine _hjoined
    simp only [List.length_cons]
    omega
  · have := length_escape _hescape
    simp only [List.length_cons]
    omega
  · simp

def literalLinesFrom (done : List Char) : Text → Option (String × Text)
  | [] => none
  | '\'' :: '\'' :: '\'' :: rest => some (closing '\'' done rest)
  | '\r' :: '\n' :: rest => literalLinesFrom ('\n' :: done) rest
  | c :: rest => if isPlain c || c = '\n' then literalLinesFrom (c :: done) rest else none

def dropNewline (cs : Text) : Text := (newline cs).getD cs

/-! ### All together -/

def quoted : Text → Option (String × Text)
  | '"' :: '"' :: '"' :: rest => basicLinesFrom [] (dropNewline rest)
  | '"' :: rest => basicFrom [] rest
  | '\'' :: '\'' :: '\'' :: rest => literalLinesFrom [] (dropNewline rest)
  | '\'' :: rest => literal rest
  | _ => none

end CallDepth.Toml
