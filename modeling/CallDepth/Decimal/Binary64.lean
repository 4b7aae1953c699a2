/-!
# Binary numbers of 64 bits

The finite binary numbers of double precision, each a sign and a whole number of the smallest
positive one, which is `2^-1074`. Results of arithmetic are rounded to the nearest such number, a
tie to the one with the even significand.
-/

namespace CallDepth.Decimal

/-- The number of units in one. -/
def unitsPerOne : Nat := Nat.pow 2 1074

/-- The least number of units that is out of range. -/
def unitsLimit : Nat := Nat.pow 2 1024 * unitsPerOne

structure Binary64 where
  negative : Bool
  units : Nat
  deriving DecidableEq, Repr

/-! ### Rounding -/

/-- The whole number nearest to `num / den`, a tie to the even one. -/
def divNearest (num den : Nat) : Nat :=
  let quotient := num / den
  let twice := 2 * (num % den)
  if twice < den ∨ (twice = den ∧ quotient % 2 = 0) then quotient else quotient + 1

/-- The spacing of the binary numbers around a number of units: a power of two, given by its
exponent. -/
def spacing (units : Nat) : Nat := units.log2 - 52

/-- The number of units of the binary number nearest to `num / den` units. -/
def nearestUnits (num den : Nat) : Nat :=
  let gap := Nat.pow 2 (spacing (num / den))
  divNearest num (den * gap) * gap

/-! ### Arithmetic of magnitudes -/

def unitsOfNat (n : Nat) : Nat := nearestUnits (n * unitsPerOne) 1

def mulUnits (a b : Nat) : Nat := nearestUnits (a * b) unitsPerOne

def divUnits (a b : Nat) : Nat := nearestUnits (a * unitsPerOne) b

def unitsOfTenPow (n : Nat) : Nat := unitsOfNat (Nat.pow 10 n)

def maxTenPow : Nat := 308

/-- Divides a magnitude by `10^exponent`, in steps of the greatest power of ten in range. -/
def scaleDown (units exponent : Nat) : Nat :=
  if exponent ≤ maxTenPow then divUnits units (unitsOfTenPow exponent)
  else if units = 0 then 0
  else scaleDown (divUnits units (unitsOfTenPow maxTenPow)) (exponent - maxTenPow)
termination_by exponent
decreasing_by
  simp only [maxTenPow] at *
  omega

/-- Multiplies a magnitude by `10^exponent`, unless that is out of range. -/
def scaleUp? (units exponent : Nat) : Option Nat :=
  if exponent ≤ maxTenPow then
    let product := mulUnits units (unitsOfTenPow exponent)
    if product < unitsLimit then some product else none
  else if units = 0 then some 0 else none

/-- The magnitude of a decimal number, its digits and its exponent rounded one after the other. -/
def unitsOfDecimal? (digits : Nat) (exponent : Int) : Option Nat :=
  if exponent < 0 then some (scaleDown (unitsOfNat digits) exponent.natAbs)
  else scaleUp? (unitsOfNat digits) exponent.natAbs

end CallDepth.Decimal
