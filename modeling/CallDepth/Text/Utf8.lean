import CallDepth.Bytes

/-!
# UTF-8

Characters as bytes, and bytes as characters. A byte string is read as pieces: whole characters, and
broken ones, each the longest run of bytes that starts a character and does not finish it. Strict
reading refuses a broken piece, lenient reading shows it as the replacement character.
-/

namespace CallDepth.Text.Utf8

/-- The bytes of one character, one to four by its code point. -/
def encodeChar (c : Char) : Bytes :=
  let n := c.toNat
  if n < 0x80 then [UInt8.ofNat n]
  else if n < 0x800 then [UInt8.ofNat (0xC0 + n / 64), UInt8.ofNat (0x80 + n % 64)]
  else if n < 0x10000 then
    [UInt8.ofNat (0xE0 + n / 4096), UInt8.ofNat (0x80 + n / 64 % 64),
      UInt8.ofNat (0x80 + n % 64)]
  else
    [UInt8.ofNat (0xF0 + n / 262144), UInt8.ofNat (0x80 + n / 4096 % 64),
      UInt8.ofNat (0x80 + n / 64 % 64), UInt8.ofNat (0x80 + n % 64)]

def encode (cs : List Char) : Bytes := cs.flatMap encodeChar

theorem encode_nil : encode [] = [] := rfl

theorem encode_cons (c : Char) (cs : List Char) : encode (c :: cs) = encodeChar c ++ encode cs :=
  List.flatMap_cons ..

theorem encode_append (cs ds : List Char) : encode (cs ++ ds) = encode cs ++ encode ds :=
  List.flatMap_append ..

/-! ### Pieces -/

inductive Piece where
  | char (c : Char)
  | broken

/-- A character under way: the bounds of its next byte, the number of bytes after that, and the
value read so far. -/
structure Started where
  low : Nat
  high : Nat
  further : Nat
  value : Nat

/-- What a byte means where a character may start. -/
def start (b : Nat) : Piece ⊕ Started :=
  if b < 0x80 then .inl (.char (Char.ofNat b))
  else if b < 0xC2 then .inl .broken
  else if b < 0xE0 then .inr ⟨0x80, 0xBF, 0, b - 0xC0⟩
  else if b = 0xE0 then .inr ⟨0xA0, 0xBF, 1, 0⟩
  else if b = 0xED then .inr ⟨0x80, 0x9F, 1, 0xD⟩
  else if b < 0xF0 then .inr ⟨0x80, 0xBF, 1, b - 0xE0⟩
  else if b = 0xF0 then .inr ⟨0x90, 0xBF, 2, 0⟩
  else if b < 0xF4 then .inr ⟨0x80, 0xBF, 2, b - 0xF0⟩
  else if b = 0xF4 then .inr ⟨0x80, 0x8F, 2, 4⟩
  else .inl .broken

/-- The pieces read so far, last first, and the character under way. -/
structure Reading where
  done : List Piece
  underway : Option Started

namespace Reading

def begin (done : List Piece) (b : Nat) : Reading :=
  match start b with
  | .inl piece => ⟨piece :: done, none⟩
  | .inr s => ⟨done, some s⟩

def step (r : Reading) (byte : UInt8) : Reading :=
  let b := byte.toNat
  match r.underway with
  | none => begin r.done b
  | some s =>
    if s.low ≤ b ∧ b ≤ s.high then
      let value := s.value * 64 + b % 64
      match s.further with
      | 0 => ⟨.char (Char.ofNat value) :: r.done, none⟩
      | n + 1 => ⟨r.done, some ⟨0x80, 0xBF, n, value⟩⟩
    else begin (.broken :: r.done) b

/-- The pieces in their order; a character still under way is broken. -/
def finish (r : Reading) : List Piece :=
  match r.underway with
  | none => r.done.reverse
  | some _ => (.broken :: r.done).reverse

end Reading

def pieces (bs : Bytes) : List Piece := (bs.foldl Reading.step ⟨[], none⟩).finish

/-! ### Reading -/

def Piece.char? : Piece → Option Char
  | .char c => some c
  | .broken => none

/-- The characters of a byte string without broken pieces. -/
def decode? (bs : Bytes) : Option (List Char) := (pieces bs).mapM Piece.char?

/-- The characters of a byte string, each broken piece shown as the replacement character. -/
def decodeLenient (bs : Bytes) : List Char := (pieces bs).map fun p => p.char?.getD '\uFFFD'

/-! ### Strings -/

def ofString (s : String) : Bytes := encode s.toList

def toString? (bs : Bytes) : Option String := (decode? bs).map String.ofList

end CallDepth.Text.Utf8
