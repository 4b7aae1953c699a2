import CallDepth.Decimal.Binary64

/-!
# Shortest decimal text

The decimal number with the fewest digits that reads back as a given binary number, the nearest to
it of those with as many digits, and its text.
-/

namespace CallDepth.Decimal

/-- A decimal number `digits * 10^exponent`. -/
structure Scaled where
  digits : Nat
  exponent : Int

/-! ### The interval of a binary number -/

/-- The decimal number as a multiple of a quarter unit over the given denominator. -/
def Scaled.quarters (d : Scaled) : Nat × Nat :=
  (4 * d.digits * unitsPerOne * Nat.pow 10 d.exponent.toNat, Nat.pow 10 (-d.exponent).toNat)

/-- Whether a decimal number is nearer to the magnitude than to any other, or as near and the
magnitude has an even significand. -/
def Scaled.readsAs (d : Scaled) (units : Nat) : Bool :=
  let gap := Nat.pow 2 (spacing units)
  let below := if units = Nat.pow 2 52 * gap ∧ gap ≠ 1 then gap else 2 * gap
  let (num, den) := d.quarters
  let low := (4 * units - below) * den
  let high := (4 * units + 2 * gap) * den
  if units / gap % 2 = 0 then low ≤ num && num ≤ high else low < num && num < high

def Scaled.distance (d : Scaled) (units : Nat) : Nat :=
  let (num, den) := d.quarters
  let value := 4 * units * den
  if num ≤ value then value - num else num - value

/-! ### The search -/

/-- The greatest exponent whose power of ten is not above a positive magnitude. -/
def leadingExponent (units : Nat) : Int :=
  if unitsPerOne ≤ units then (toString (units / unitsPerOne)).length - 1
  else -(((List.range 400).find? fun n => unitsPerOne ≤ units * Nat.pow 10 n).getD 0 : Nat)

/-- The two decimal numbers with the given exponent next to a magnitude. -/
def neighbours (units : Nat) (exponent : Int) : Scaled × Scaled :=
  let floor := units * Nat.pow 10 (-exponent).toNat / (unitsPerOne * Nat.pow 10 exponent.toNat)
  (⟨floor, exponent⟩, ⟨floor + 1, exponent⟩)

/-- The decimal number with the given exponent that reads as a magnitude and is nearest to it. -/
def bestAt? (units : Nat) (exponent : Int) : Option Scaled :=
  let (lower, upper) := neighbours units exponent
  match lower.readsAs units, upper.readsAs units with
  | true, true =>
    let below := lower.distance units
    let above := upper.distance units
    if below < above ∨ (below = above ∧ lower.digits % 2 = 0) then some lower else some upper
  | true, false => some lower
  | false, true => some upper
  | false, false => none

def shortest (units : Nat) : Scaled :=
  let leading := leadingExponent units
  ((List.range 17).findSome? fun (n : Nat) => bestAt? units (leading - n)).getD ⟨0, 0⟩

/-! ### Text -/

/-- The digits of a decimal number without the zeros at their end, and its exponent then. -/
def Scaled.trimmed (d : Scaled) : List Char × Int :=
  let all := (toString d.digits).toList
  let kept := (all.reverse.dropWhile (· = '0')).reverse
  (kept, d.exponent + (all.length - kept.length : Nat))

/-- The text of a decimal number: positional from `10^-5` up to `10^16`, and with an exponent
beyond. -/
def Scaled.text (d : Scaled) : String :=
  let (digits, exponent) := d.trimmed
  let point := digits.length + exponent
  if 0 ≤ exponent ∧ point ≤ 16 then
    String.ofList (digits ++ List.replicate exponent.toNat '0') ++ ".0"
  else if 0 < point ∧ point ≤ 16 then
    String.ofList (digits.take point.toNat) ++ "." ++ String.ofList (digits.drop point.toNat)
  else if -5 < point ∧ point ≤ 0 then
    "0." ++ String.ofList (List.replicate (-point).toNat '0' ++ digits)
  else
    let power := point - 1
    let mantissa := String.ofList (digits.take 1) ++
      (if digits.length = 1 then "" else "." ++ String.ofList (digits.drop 1))
    mantissa ++ (if power < 0 then "e-" else "e+") ++ toString power.natAbs

/-- The text of a binary number, which always has a point or an exponent. -/
def Binary64.text (x : Binary64) : String :=
  (if x.negative then "-" else "") ++ (if x.units = 0 then "0.0" else (shortest x.units).text)

end CallDepth.Decimal
