import CallDepth.Json.Number

/-!
# Tokens of JSON

A document is a sequence of tokens with blanks between them.
-/

namespace CallDepth.Json

inductive Token where
  | openArray
  | closeArray
  | openObject
  | closeObject
  | comma
  | colon
  | null
  | bool (b : Bool)
  | number (n : Number)
  | string (s : String)
  deriving DecidableEq, Repr

/-! ### Strings -/

def hexValue? (c : Char) : Option Nat :=
  if '0' ≤ c ∧ c ≤ '9' then some (c.toNat - '0'.toNat)
  else if 'a' ≤ c ∧ c ≤ 'f' then some (c.toNat - 'a'.toNat + 10)
  else if 'A' ≤ c ∧ c ≤ 'F' then some (c.toNat - 'A'.toNat + 10)
  else none

def takeHex4? : List Char → Option (Nat × List Char)
  | a :: b :: c :: d :: rest => do
    let a ← hexValue? a
    let b ← hexValue? b
    let c ← hexValue? c
    let d ← hexValue? d
    some (((a * 16 + b) * 16 + c) * 16 + d, rest)
  | _ => none

/-- The second half of a character that is written as two. -/
def takeLowHalf? : List Char → Option (Nat × List Char)
  | '\\' :: 'u' :: cs => do
    let (low, rest) ← takeHex4? cs
    if 0xDC00 ≤ low ∧ low ≤ 0xDFFF then some (low, rest) else none
  | _ => none

/-- The character that a code of four digits starts, and what follows it. -/
def takeCode? (cs : List Char) : Option (Char × List Char) := do
  let (code, rest) ← takeHex4? cs
  if 0xD800 ≤ code ∧ code ≤ 0xDBFF then
    let (low, rest) ← takeLowHalf? rest
    some (Char.ofNat (0x10000 + (code - 0xD800) * 0x400 + (low - 0xDC00)), rest)
  else if 0xDC00 ≤ code ∧ code ≤ 0xDFFF then none
  else some (Char.ofNat code, rest)

def takeEscape? : List Char → Option (Char × List Char)
  | '"' :: rest => some ('"', rest)
  | '\\' :: rest => some ('\\', rest)
  | '/' :: rest => some ('/', rest)
  | 'b' :: rest => some ('\x08', rest)
  | 'f' :: rest => some ('\x0c', rest)
  | 'n' :: rest => some ('\n', rest)
  | 'r' :: rest => some ('\r', rest)
  | 't' :: rest => some ('\t', rest)
  | 'u' :: rest => takeCode? rest
  | _ => none

theorem length_takeHex4? {cs rest : List Char} {n : Nat} (h : takeHex4? cs = some (n, rest)) :
    rest.length < cs.length := by
  unfold takeHex4? at h
  split at h
  · simp only [Option.bind_eq_bind, Option.bind_eq_some_iff, Option.some.injEq,
      Prod.mk.injEq] at h
    obtain ⟨_, -, _, -, _, -, _, -, -, rfl⟩ := h
    simp only [List.length_cons]
    omega
  · simp at h

theorem length_takeLowHalf? {cs rest : List Char} {n : Nat}
    (h : takeLowHalf? cs = some (n, rest)) : rest.length < cs.length := by
  unfold takeLowHalf? at h
  split at h
  · simp only [Option.bind_eq_bind, Option.bind_eq_some_iff] at h
    obtain ⟨⟨low, rest'⟩, htake, h⟩ := h
    have := length_takeHex4? htake
    dsimp only at h
    split at h
    · simp only [Option.some.injEq, Prod.mk.injEq] at h
      obtain ⟨-, rfl⟩ := h
      simp only [List.length_cons]
      omega
    · simp at h
  · simp at h

theorem length_takeCode? {cs rest : List Char} {c : Char} (h : takeCode? cs = some (c, rest)) :
    rest.length < cs.length := by
  simp only [takeCode?, Option.bind_eq_bind, Option.bind_eq_some_iff] at h
  obtain ⟨⟨code, rest'⟩, htake, h⟩ := h
  have h1 := length_takeHex4? htake
  dsimp only at h
  split at h
  · simp only [Option.bind_eq_some_iff, Option.some.injEq, Prod.mk.injEq] at h
    obtain ⟨⟨low, rest''⟩, hlow, -, rfl⟩ := h
    have h2 := length_takeLowHalf? hlow
    dsimp only at h1 h2 ⊢
    omega
  · split at h
    · simp at h
    · simp only [Option.some.injEq, Prod.mk.injEq] at h
      obtain ⟨-, rfl⟩ := h
      exact h1

theorem length_takeEscape? {cs rest : List Char} {c : Char}
    (h : takeEscape? cs = some (c, rest)) : rest.length < cs.length := by
  unfold takeEscape? at h
  split at h
  case h_9 =>
    have := length_takeCode? h
    simp only [List.length_cons]
    omega
  case h_10 => simp at h
  all_goals
    simp only [Option.some.injEq, Prod.mk.injEq] at h
    obtain ⟨-, rfl⟩ := h
    simp

/-- Reads a string up to the quote that ends it; `done` holds its characters so far, last first. -/
def takeStringFrom? (done : List Char) (cs : List Char) : Option (String × List Char) :=
  match cs with
  | [] => none
  | c :: rest =>
    if c = '"' then some (String.ofList done.reverse, rest)
    else if c = '\\' then
      match _htake : takeEscape? rest with
      | none => none
      | some (c, rest') => takeStringFrom? (c :: done) rest'
    else if c.toNat < 0x20 then none
    else takeStringFrom? (c :: done) rest
termination_by cs.length
decreasing_by
  · have := length_takeEscape? _htake
    simp only [List.length_cons]
    omega
  · simp

theorem length_takeStringFrom? {done cs rest : List Char} {s : String}
    (h : takeStringFrom? done cs = some (s, rest)) : rest.length < cs.length := by
  fun_induction takeStringFrom? done cs with
  | case1 => simp at h
  | case2 done rest' =>
    simp only [Option.some.injEq, Prod.mk.injEq] at h
    obtain ⟨-, rfl⟩ := h
    simp
  | case3 => simp at h
  | case4 done rest' c rest'' htake hne ih =>
    have h1 := length_takeEscape? htake
    have h2 := ih h
    simp only [List.length_cons]
    omega
  | case5 => simp at h
  | case6 done c rest' h1 h2 h3 ih =>
    have := ih h
    simp only [List.length_cons]
    omega

/-! ### Tokens -/

def isSpace (c : Char) : Bool := c = ' ' || c = '\n' || c = '\t' || c = '\r'

/-- The token at the front of a text that does not start with a blank, and what follows it. -/
def takeToken? (cs : List Char) : Option (Token × List Char) :=
  match cs with
  | '[' :: rest => some (.openArray, rest)
  | ']' :: rest => some (.closeArray, rest)
  | '{' :: rest => some (.openObject, rest)
  | '}' :: rest => some (.closeObject, rest)
  | ',' :: rest => some (.comma, rest)
  | ':' :: rest => some (.colon, rest)
  | 'n' :: 'u' :: 'l' :: 'l' :: rest => some (.null, rest)
  | 't' :: 'r' :: 'u' :: 'e' :: rest => some (.bool true, rest)
  | 'f' :: 'a' :: 'l' :: 's' :: 'e' :: rest => some (.bool false, rest)
  | '"' :: rest => (takeStringFrom? [] rest).map fun (s, rest) => (.string s, rest)
  | cs => do
    let (parts, rest) ← takeNumber? cs
    let n ← parts.value?
    some (.number n, rest)

theorem length_takeToken? {cs rest : List Char} {t : Token}
    (h : takeToken? cs = some (t, rest)) : rest.length < cs.length := by
  unfold takeToken? at h
  split at h
  case h_10 =>
    obtain ⟨⟨s, rest'⟩, htake, heq⟩ := Option.map_eq_some_iff.mp h
    simp only [Prod.mk.injEq] at heq
    obtain ⟨-, rfl⟩ := heq
    have := length_takeStringFrom? htake
    simp only [List.length_cons]
    omega
  case h_11 =>
    simp only [Option.bind_eq_bind, Option.bind_eq_some_iff, Option.some.injEq,
      Prod.mk.injEq] at h
    obtain ⟨⟨parts, rest'⟩, htake, _, -, -, rfl⟩ := h
    exact length_takeNumber? htake
  all_goals
    simp only [Option.some.injEq, Prod.mk.injEq] at h
    obtain ⟨-, rfl⟩ := h
    simp only [List.length_cons]
    omega

/-- Reads the tokens of a text; `done` holds those so far, last first. -/
def tokensFrom? (done : List Token) (cs : List Char) : Option (List Token) :=
  match cs with
  | [] => some done.reverse
  | c :: rest =>
    if isSpace c then tokensFrom? done rest
    else
      match _htake : takeToken? (c :: rest) with
      | none => none
      | some (t, rest') => tokensFrom? (t :: done) rest'
termination_by cs.length
decreasing_by
  · simp
  · exact length_takeToken? _htake

def tokens? (cs : List Char) : Option (List Token) := tokensFrom? [] cs

end CallDepth.Json
