import CallDepth.Toml.Item

/-!
# Numbers and dates in TOML

Numbers, truth values and dates are read to see that they are well formed and in range; what they
stand for is not kept. Each function gives what follows the value at the front of a text.
-/

namespace CallDepth.Toml

abbrev Text := List Char

def isDecDigit (c : Char) : Bool := '0' ≤ c && c ≤ '9'

def isHexDigit (c : Char) : Bool :=
  isDecDigit c || ('a' ≤ c && c ≤ 'f') || ('A' ≤ c && c ≤ 'F')

def isOctDigit (c : Char) : Bool := '0' ≤ c && c ≤ '7'

def isBinDigit (c : Char) : Bool := c = '0' || c = '1'

def digitValue (c : Char) : Nat :=
  if isDecDigit c then c.toNat - '0'.toNat
  else if 'a' ≤ c then c.toNat - 'a'.toNat + 10
  else c.toNat - 'A'.toNat + 10

def digitsValue (base : Nat) (ds : List Char) : Nat :=
  ds.foldl (fun n d => base * n + digitValue d) 0

/-! ### Digits -/

/-- Digits in a row, where one underscore may stand between two of them, and what follows. -/
def moreDigits (isDigit : Char → Bool) : Text → Option (List Char × Text)
  | '_' :: d :: rest =>
    if isDigit d then (moreDigits isDigit rest).map fun (ds, rest) => (d :: ds, rest) else none
  | d :: rest =>
    if isDigit d then (moreDigits isDigit rest).map fun (ds, rest) => (d :: ds, rest)
    else if d = '_' then none
    else some ([], d :: rest)
  | [] => some ([], [])

def digitRun (isDigit : Char → Bool) : Text → Option (List Char × Text)
  | d :: rest =>
    if isDigit d then (moreDigits isDigit rest).map fun (ds, rest) => (d :: ds, rest) else none
  | [] => none

def takeSign : Text → Bool × Text
  | '-' :: rest => (true, rest)
  | '+' :: rest => (false, rest)
  | cs => (false, cs)

/-- The digits of a decimal number: a zero alone, or digits that start with another. -/
def wholeDigits : Text → Option (List Char × Text)
  | '0' :: rest => some (['0'], rest)
  | cs => digitRun isDecDigit cs

/-! ### Whole numbers -/

def maxInteger : Nat := Nat.pow 2 63 - 1

def basedInteger (base : Nat) (isDigit : Char → Bool) (cs : Text) : Option Text := do
  let (ds, rest) ← digitRun isDigit cs
  if digitsValue base ds ≤ maxInteger then some rest else none

def integer : Text → Option Text
  | '0' :: 'x' :: rest => basedInteger 16 isHexDigit rest
  | '0' :: 'o' :: rest => basedInteger 8 isOctDigit rest
  | '0' :: 'b' :: rest => basedInteger 2 isBinDigit rest
  | cs => do
    let (negative, cs) := takeSign cs
    let (ds, rest) ← wholeDigits cs
    if digitsValue 10 ds ≤ (if negative then maxInteger + 1 else maxInteger) then some rest
    else none

/-! ### Numbers with a fraction or an exponent -/

/-- The least number that is rounded beyond the range of binary numbers. -/
def floatLimit : Nat := Nat.pow 2 970 * (Nat.pow 2 54 - 1)

def isBeyondRange (ds : List Char) (exponent : Int) : Bool :=
  let n := digitsValue 10 ds
  if n = 0 then false
  else if 400 < exponent then true
  else if exponent + ds.length < 300 then false
  else floatLimit * Nat.pow 10 (-exponent).toNat ≤ n * Nat.pow 10 exponent.toNat

def exponentPart : Text → Option (Option (Bool × List Char) × Text)
  | c :: rest =>
    if c = 'e' ∨ c = 'E' then
      let sign := takeSign rest
      (digitRun isDecDigit sign.2).map fun (ds, rest) => (some (sign.1, ds), rest)
    else some (none, c :: rest)
  | [] => some (none, [])

def fractionPart : Text → Option (Option (List Char) × Text)
  | '.' :: rest => (digitRun isDecDigit rest).map fun (ds, rest) => (some ds, rest)
  | cs => some (none, cs)

/-- The words for the numbers that are none. -/
def specialFloat : Text → Option Text
  | 'i' :: 'n' :: 'f' :: rest => some rest
  | 'n' :: 'a' :: 'n' :: rest => some rest
  | _ => none

def float (cs : Text) : Option Text := do
  let (negative, cs) := takeSign cs
  match specialFloat cs with
  | some rest => some rest
  | none =>
    let (whole, cs) ← wholeDigits cs
    let (fraction, cs) ← fractionPart cs
    let (exponent, rest) ← exponentPart cs
    if fraction.isNone ∧ exponent.isNone then none
    else
      let places := (fraction.getD []).length
      let shift : Int := match exponent with
        | none => 0
        | some (down, ds) => if down then -(digitsValue 10 ds) else digitsValue 10 ds
      if !negative && isBeyondRange (whole ++ fraction.getD []) (shift - places) then none
      else some rest

/-! ### Dates -/

def fixedDigits (n low high : Nat) (cs : Text) : Option (Nat × Text) :=
  let ds := cs.take n
  let value := digitsValue 10 ds
  if ds.length = n ∧ ds.all isDecDigit ∧ low ≤ value ∧ value ≤ high then some (value, cs.drop n)
  else none

def mark (c : Char) : Text → Option Text
  | d :: rest => if d = c then some rest else none
  | [] => none

def isLeapYear (year : Nat) : Bool := year % 4 = 0 && (year % 100 ≠ 0 || year % 400 = 0)

def daysInMonth (year month : Nat) : Nat :=
  if month = 2 then (if isLeapYear year then 29 else 28)
  else if month ∈ [4, 6, 9, 11] then 30
  else 31

def date (cs : Text) : Option Text := do
  let (year, cs) ← fixedDigits 4 0 9999 cs
  let (month, cs) ← fixedDigits 2 1 12 (← mark '-' cs)
  let (_, rest) ← fixedDigits 2 1 (daysInMonth year month) (← mark '-' cs)
  some rest

def secondFraction : Text → Text
  | '.' :: rest =>
    match rest.takeWhile isDecDigit with
    | [] => '.' :: rest
    | _ => rest.dropWhile isDecDigit
  | cs => cs

def time (cs : Text) : Option Text := do
  let (_, cs) ← fixedDigits 2 0 23 cs
  let (_, cs) ← fixedDigits 2 0 59 (← mark ':' cs)
  let (_, rest) ← fixedDigits 2 0 60 (← mark ':' cs)
  some (secondFraction rest)

/-- The offset of a time from the mean time, which may be left out. -/
def offset : Text → Option Text
  | c :: rest =>
    if c = 'Z' ∨ c = 'z' then some rest
    else if c = '+' ∨ c = '-' then do
      let (_, cs) ← fixedDigits 2 0 23 rest
      let (_, rest) ← fixedDigits 2 0 59 (← mark ':' cs)
      some rest
    else some (c :: rest)
  | [] => some []

/-- The time of a day after its date, which may be left out. -/
def timeOfDay : Text → Option Text
  | c :: rest =>
    if c = 'T' ∨ c = 't' ∨ c = ' ' then
      match time rest with
      | some rest => offset rest
      | none => some (c :: rest)
    else some (c :: rest)
  | [] => some []

def dateTime (cs : Text) : Option Text :=
  match date cs with
  | some rest => timeOfDay rest
  | none => time cs

/-! ### All together -/

def truthValue : Text → Option Text
  | 't' :: 'r' :: 'u' :: 'e' :: rest => some rest
  | 'f' :: 'a' :: 'l' :: 's' :: 'e' :: rest => some rest
  | _ => none

/-- A value that is neither a string nor holds others. -/
def scalar (cs : Text) : Option (Item × Text) :=
  match dateTime cs with
  | some rest => some (.date, rest)
  | none =>
    match float cs with
    | some rest => some (.other, rest)
    | none =>
      match integer cs with
      | some rest => some (.other, rest)
      | none => (truthValue cs).map fun rest => (.other, rest)

end CallDepth.Toml
