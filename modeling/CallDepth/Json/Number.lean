import CallDepth.Json.Basic

/-!
# Numbers in JSON

A number is read off a text as its sign, its whole digits and, if it has them, its fraction and its
exponent. As many of the digits as fit a word make up its significand; the exponent makes up for
those that do not.
-/

namespace CallDepth.Json

/-! ### The parts of a number -/

def isDigit (c : Char) : Bool := '0' ≤ c && c ≤ '9'

def digitValue (c : Char) : Nat := c.toNat - '0'.toNat

def digitsValue (ds : List Char) : Nat := ds.foldl (fun n d => 10 * n + digitValue d) 0

structure Exponent where
  negative : Bool
  digits : List Char

structure NumberParts where
  negative : Bool
  whole : List Char
  fraction : Option (List Char)
  exponent : Option Exponent

/-- The digits at the front of a text, of which there must be one, and what follows. -/
def takeDigits? (cs : List Char) : Option (List Char × List Char) :=
  match cs.takeWhile isDigit with
  | [] => none
  | d :: ds => some (d :: ds, cs.dropWhile isDigit)

/-- The whole digits of a number: a zero alone, or digits that start with another. -/
def takeWhole? : List Char → Option (List Char × List Char)
  | '0' :: rest => some (['0'], rest)
  | cs => takeDigits? cs

def takeFraction? : List Char → Option (Option (List Char) × List Char)
  | '.' :: rest => (takeDigits? rest).map fun (ds, rest) => (some ds, rest)
  | cs => some (none, cs)

def takeExponentSign : List Char → Bool × List Char
  | '-' :: rest => (true, rest)
  | '+' :: rest => (false, rest)
  | cs => (false, cs)

def takeExponent? (cs : List Char) : Option (Option Exponent × List Char) :=
  match cs with
  | c :: rest =>
    if c = 'e' ∨ c = 'E' then
      let sign := takeExponentSign rest
      (takeDigits? sign.2).map fun (ds, rest) => (some ⟨sign.1, ds⟩, rest)
    else some (none, cs)
  | [] => some (none, [])

def takeSign : List Char → Bool × List Char
  | '-' :: rest => (true, rest)
  | cs => (false, cs)

def takeNumber? (cs : List Char) : Option (NumberParts × List Char) := do
  let (negative, cs) := takeSign cs
  let (whole, cs) ← takeWhole? cs
  let (fraction, cs) ← takeFraction? cs
  let (exponent, cs) ← takeExponent? cs
  some ({ negative, whole, fraction, exponent }, cs)

/-! ### The length of what follows -/

theorem length_takeDigits? {cs ds rest : List Char} (h : takeDigits? cs = some (ds, rest)) :
    rest.length < cs.length := by
  simp only [takeDigits?] at h
  split at h
  · simp at h
  · rename_i d ds' htake
    simp only [Option.some.injEq, Prod.mk.injEq] at h
    obtain ⟨-, rfl⟩ := h
    have hlen := congrArg List.length (List.takeWhile_append_dropWhile (p := isDigit) (l := cs))
    rw [htake, List.length_append, List.length_cons] at hlen
    omega

theorem length_takeWhole? {cs ds rest : List Char} (h : takeWhole? cs = some (ds, rest)) :
    rest.length < cs.length := by
  unfold takeWhole? at h
  split at h
  · simp only [Option.some.injEq, Prod.mk.injEq] at h
    obtain ⟨-, rfl⟩ := h
    simp
  · exact length_takeDigits? h

theorem length_takeFraction? {cs rest : List Char} {f : Option (List Char)}
    (h : takeFraction? cs = some (f, rest)) : rest.length ≤ cs.length := by
  unfold takeFraction? at h
  split at h
  · rename_i rest'
    obtain ⟨⟨ds, rest''⟩, htake, heq⟩ := Option.map_eq_some_iff.mp h
    simp only [Prod.mk.injEq] at heq
    obtain ⟨-, rfl⟩ := heq
    have := length_takeDigits? htake
    simp only [List.length_cons]
    omega
  · simp only [Option.some.injEq, Prod.mk.injEq] at h
    obtain ⟨-, rfl⟩ := h
    exact Nat.le_refl _

theorem length_takeExponentSign (cs : List Char) :
    (takeExponentSign cs).2.length ≤ cs.length := by
  unfold takeExponentSign
  split <;> simp

theorem length_takeExponent? {cs rest : List Char} {e : Option Exponent}
    (h : takeExponent? cs = some (e, rest)) : rest.length ≤ cs.length := by
  unfold takeExponent? at h
  split at h
  · rename_i c tail
    split at h
    · obtain ⟨⟨ds, rest'⟩, htake, heq⟩ := Option.map_eq_some_iff.mp h
      simp only [Prod.mk.injEq] at heq
      obtain ⟨-, rfl⟩ := heq
      have h1 := length_takeDigits? htake
      have h2 := length_takeExponentSign tail
      simp only [List.length_cons]
      omega
    · simp only [Option.some.injEq, Prod.mk.injEq] at h
      obtain ⟨-, rfl⟩ := h
      exact Nat.le_refl _
  · simp only [Option.some.injEq, Prod.mk.injEq] at h
    obtain ⟨-, rfl⟩ := h
    exact Nat.le_refl _

theorem length_takeSign (cs : List Char) : (takeSign cs).2.length ≤ cs.length := by
  unfold takeSign
  split <;> simp

theorem length_takeNumber? {cs rest : List Char} {parts : NumberParts}
    (h : takeNumber? cs = some (parts, rest)) : rest.length < cs.length := by
  simp only [takeNumber?, Option.bind_eq_bind, Option.bind_eq_some_iff, Option.some.injEq,
    Prod.mk.injEq] at h
  obtain ⟨⟨ds, r1⟩, h1, ⟨f, r2⟩, h2, ⟨e, r3⟩, h3, -, rfl⟩ := h
  have l0 := length_takeSign cs
  have l1 := length_takeWhole? h1
  have l2 := length_takeFraction? h2
  have l3 := length_takeExponent? h3
  dsimp only at l0 l1 l2 l3 ⊢
  omega

/-! ### The value of a number -/

def maxSignificand : Nat := Nat.pow 2 64 - 1

def maxExponent : Nat := Nat.pow 2 31 - 1

/-- A significand and the digits that still belong to it, cut at the first that does not fit. -/
def extend (significand : Nat) : List Char → Nat × List Char
  | [] => (significand, [])
  | d :: ds =>
    let next := 10 * significand + digitValue d
    if next ≤ maxSignificand then extend next ds else (significand, d :: ds)

/-- The number with the given sign and decimal, if it is in range. -/
def real? (negative : Bool) (digits : Nat) (exponent : Int) : Option Number :=
  (Decimal.unitsOfDecimal? digits exponent).map fun units => .real ⟨negative, units⟩

/-- The whole number with the given sign; a zero with a sign, or a number below all of 64 bits, is
not kept as whole. -/
def Number.ofWhole (negative : Bool) (n : Nat) : Number :=
  if !negative then .natural n
  else if n = 0 ∨ Nat.pow 2 63 < n then .real ⟨true, Decimal.unitsOfNat n⟩
  else .negative n

def scaled? (negative : Bool) (digits : Nat) (exponent : Int) (e : Exponent) : Option Number :=
  let n := digitsValue e.digits
  if n ≤ maxExponent then real? negative digits (if e.negative then exponent - n else exponent + n)
  else if digits = 0 ∨ e.negative then some (.real ⟨negative, 0⟩)
  else none

/-- The value of a number, none if it is out of range. -/
def NumberParts.value? (parts : NumberParts) : Option Number :=
  let (digits, beyond) := extend 0 parts.whole
  match parts.fraction, parts.exponent with
  | none, none =>
    if beyond = [] then some (.ofWhole parts.negative digits)
    else real? parts.negative digits beyond.length
  | fraction, exponent =>
    let (digits, dropped) := extend digits (fraction.getD [])
    let places := (fraction.getD []).length - dropped.length
    let shift : Int := beyond.length - places
    match exponent with
    | none => real? parts.negative digits shift
    | some e => scaled? parts.negative digits shift e

end CallDepth.Json
