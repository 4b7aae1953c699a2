/-!
# Byte strings

Byte strings and the eight-byte numbers written in them, least significant byte first.
-/

namespace CallDepth

abbrev Bytes := List UInt8

/-- The number of words of eight bytes. -/
def wordCount : Nat := Nat.pow 2 64

/-! ### Digits -/

/-- The `n` lowest digits of `value` to the base 256, lowest first. -/
def digits256 (value : Nat) : Nat → Bytes
  | 0 => []
  | n + 1 => UInt8.ofNat value :: digits256 (value / 256) n

def ofDigits256 : Bytes → Nat
  | [] => 0
  | b :: rest => b.toNat + 256 * ofDigits256 rest

theorem length_digits256 (value n : Nat) : (digits256 value n).length = n := by
  induction n generalizing value with
  | zero => rfl
  | succ n ih => simp [digits256, ih]

theorem ofDigits256_lt (bs : Bytes) : ofDigits256 bs < Nat.pow 256 bs.length := by
  induction bs with
  | nil => simp [ofDigits256]
  | cons b rest ih =>
    have hb : b.toNat < 256 := b.toNat_lt
    have hpow : Nat.pow 256 (rest.length + 1) = Nat.pow 256 rest.length * 256 := rfl
    rw [ofDigits256, List.length_cons, hpow]
    omega

theorem ofDigits256_digits256 (n value : Nat) (h : value < Nat.pow 256 n) :
    ofDigits256 (digits256 value n) = value := by
  induction n generalizing value with
  | zero =>
    have hvalue : value < 1 := h
    simp only [digits256, ofDigits256]
    omega
  | succ n ih =>
    have hpow : Nat.pow 256 (n + 1) = Nat.pow 256 n * 256 := rfl
    have hdiv : value / 256 < Nat.pow 256 n := by
      rw [hpow] at h
      omega
    simp only [digits256, ofDigits256, ih _ hdiv, UInt8.toNat_ofNat']
    omega

theorem digits256_ofDigits256 (bs : Bytes) : digits256 (ofDigits256 bs) bs.length = bs := by
  induction bs with
  | nil => rfl
  | cons b rest ih =>
    have hb : b.toNat < 256 := b.toNat_lt
    have hdiv : (b.toNat + 256 * ofDigits256 rest) / 256 = ofDigits256 rest := by omega
    have hmod : UInt8.ofNat (b.toNat + 256 * ofDigits256 rest) = b := by
      apply UInt8.toNat_inj.mp
      rw [UInt8.toNat_ofNat']
      omega
    simp only [ofDigits256, List.length_cons, digits256, hdiv, hmod, ih]

/-! ### Taking a byte string apart -/

/-- The first `n` bytes and what follows them, if there are as many. -/
def takeExactly? (n : Nat) (bs : Bytes) : Option (Bytes × Bytes) :=
  let front := bs.take n
  if front.length = n then some (front, bs.drop n) else none

theorem takeExactly?_append (front rest : Bytes) :
    takeExactly? front.length (front ++ rest) = some (front, rest) := by
  simp [takeExactly?]

theorem eq_append_of_takeExactly? {n : Nat} {bs front rest : Bytes}
    (h : takeExactly? n bs = some (front, rest)) : bs = front ++ rest ∧ front.length = n := by
  simp only [takeExactly?] at h
  split at h
  · rename_i hlen
    simp only [Option.some.injEq, Prod.mk.injEq] at h
    obtain ⟨rfl, rfl⟩ := h
    exact ⟨(List.take_append_drop n bs).symm, hlen⟩
  · simp at h

theorem takeExactly?_of_length_lt {n : Nat} {bs : Bytes} (h : bs.length < n) :
    takeExactly? n bs = none := by
  have hshort : ¬ (bs.take n).length = n := by
    rw [List.length_take]
    omega
  rw [takeExactly?, if_neg hshort]

/-! ### Words -/

def word (value : Nat) : Bytes := digits256 value 8

def takeWord? (bs : Bytes) : Option (Nat × Bytes) :=
  (takeExactly? 8 bs).map fun (front, rest) => (ofDigits256 front, rest)

theorem length_word (value : Nat) : (word value).length = 8 := length_digits256 value 8

theorem takeWord?_word_append (value : Nat) (h : value < wordCount) (rest : Bytes) :
    takeWord? (word value ++ rest) = some (value, rest) := by
  have htake := takeExactly?_append (word value) rest
  rw [length_word] at htake
  have hvalue : ofDigits256 (word value) = value :=
    ofDigits256_digits256 8 value (by simpa [wordCount] using h)
  simp only [takeWord?, htake, Option.map_some, hvalue]

theorem eq_word_append_of_takeWord? {bs rest : Bytes} {value : Nat}
    (h : takeWord? bs = some (value, rest)) : bs = word value ++ rest ∧ value < wordCount := by
  obtain ⟨⟨front, rest'⟩, htake, heq⟩ := Option.map_eq_some_iff.mp h
  simp only [Prod.mk.injEq] at heq
  obtain ⟨rfl, rfl⟩ := heq
  obtain ⟨rfl, hlen⟩ := eq_append_of_takeExactly? htake
  have hword := digits256_ofDigits256 front
  have hlt := ofDigits256_lt front
  rw [hlen] at hword hlt
  exact ⟨by rw [word, hword], by simpa [wordCount] using hlt⟩

end CallDepth
