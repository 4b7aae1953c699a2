import CallDepth.Proofs.Text.Utf8

/-!
# Boundaries of characters

The offsets in the bytes of a text at which it can be cut without cutting a character. In the bytes
alone they show as the bytes that start a character, which differ from those that go on with one.
-/

namespace CallDepth.Text.Utf8

/-- Whether a byte starts a character, as every byte does that does not go on with one. -/
def startsChar (b : UInt8) : Bool := b < 0x80 || 0xC0 ≤ b

/-- The offsets of the bytes that start a character, counted from `offset`. -/
def charStartsFrom (offset : Nat) : Bytes → List Nat
  | [] => []
  | b :: rest =>
    if startsChar b then offset :: charStartsFrom (offset + 1) rest
    else charStartsFrom (offset + 1) rest

def charStarts (bs : Bytes) : List Nat := charStartsFrom 0 bs

/-- Whether an offset in the bytes of a text lies between two of its characters or at an end. -/
def IsBoundary (cs : List Char) (offset : Nat) : Prop :=
  ∃ front back, cs = front ++ back ∧ (encode front).length = offset

theorem isBoundary_append (front back : List Char) :
    IsBoundary (front ++ back) (encode front).length := ⟨front, back, rfl, rfl⟩

theorem IsBoundary.append_left {cs : List Char} {offset : Nat} (h : IsBoundary cs offset)
    (front : List Char) : IsBoundary (front ++ cs) ((encode front).length + offset) := by
  obtain ⟨mid, back, rfl, rfl⟩ := h
  refine ⟨front ++ mid, back, by simp, ?_⟩
  rw [encode_append, List.length_append]

/-! ### Bytes that start a character -/

theorem startsChar_ofNat {n : Nat} (h : n < 256) :
    startsChar (UInt8.ofNat n) = (decide (n < 0x80) || decide (0xC0 ≤ n)) := by
  simp only [startsChar, UInt8.lt_iff_toNat_lt, UInt8.le_iff_toNat_le, toNat_ofNat_of_lt h]
  rfl

theorem startsChar_of_le {n : Nat} (h : 0xC0 ≤ n ∧ n < 256) : startsChar (UInt8.ofNat n) = true := by
  simp [startsChar_ofNat h.2, h.1]

theorem startsChar_tail (n : Nat) : startsChar (UInt8.ofNat (0x80 + n % 64)) = false := by
  rw [startsChar_ofNat (by omega)]
  simp only [Bool.or_eq_false_iff, decide_eq_false_iff_not]
  omega

/-- A character is a byte that starts it and bytes that go on with it; there are none of these if
the first is ASCII. -/
theorem exists_encodeChar_eq_cons (c : Char) :
    ∃ b rest, encodeChar c = b :: rest ∧ startsChar b = true ∧
      (∀ tail ∈ rest, startsChar tail = false) ∧ (b.toNat < 0x80 → rest = []) := by
  have hvalid := toNat_valid c
  unfold encodeChar
  dsimp only
  split
  · exact ⟨_, _, rfl, by simp [startsChar_ofNat (n := c.toNat) (by omega), *], by simp, by simp⟩
  · split
    · refine ⟨_, _, rfl, startsChar_of_le (by omega), ?_, ?_⟩
      · simp only [List.forall_mem_singleton, startsChar_tail]
      · rw [toNat_ofNat_of_lt (by omega)]
        omega
    · split
      · refine ⟨_, _, rfl, startsChar_of_le (by omega), ?_, ?_⟩
        · simp only [List.forall_mem_cons, startsChar_tail, List.not_mem_nil, false_implies,
            implies_true, and_self]
        · rw [toNat_ofNat_of_lt (by omega)]
          omega
      · refine ⟨_, _, rfl, startsChar_of_le (by omega), ?_, ?_⟩
        · simp only [List.forall_mem_cons, startsChar_tail, List.not_mem_nil, false_implies,
            implies_true, and_self]
        · rw [toNat_ofNat_of_lt (by omega)]
          omega

theorem charStartsFrom_of_tails {rest : Bytes} (h : ∀ tail ∈ rest, startsChar tail = false)
    (offset : Nat) (bs : Bytes) :
    charStartsFrom offset (rest ++ bs) = charStartsFrom (offset + rest.length) bs := by
  induction rest generalizing offset with
  | nil => rfl
  | cons tail rest ih =>
    have htail := h tail (List.mem_cons_self ..)
    have hrest := ih (fun x hx => h x (List.mem_cons_of_mem _ hx)) (offset + 1)
    simp only [List.cons_append, charStartsFrom, htail, Bool.false_eq_true, if_false, hrest,
      List.length_cons]
    congr 1
    omega

theorem charStartsFrom_encode_cons (offset : Nat) (c : Char) (cs : List Char) :
    charStartsFrom offset (encode (c :: cs)) =
      offset :: charStartsFrom (offset + (encodeChar c).length) (encode cs) := by
  obtain ⟨b, rest, hchar, hstarts, htails, -⟩ := exists_encodeChar_eq_cons c
  rw [encode_cons, hchar, List.cons_append]
  simp only [charStartsFrom, hstarts, if_true, charStartsFrom_of_tails htails, List.length_cons]
  congr 2
  omega

/-- An ASCII byte is a character of its own. -/
theorem exists_eq_cons_of_encode {cs : List Char} {n : Nat} {rest : Bytes} (hn : n < 0x80)
    (h : encode cs = UInt8.ofNat n :: rest) :
    ∃ ds, cs = Char.ofNat n :: ds ∧ encode ds = rest := by
  cases cs with
  | nil => simp [encode_nil] at h
  | cons c ds =>
    obtain ⟨b, tails, hchar, -, -, hascii⟩ := exists_encodeChar_eq_cons c
    rw [encode_cons, hchar, List.cons_append, List.cons.injEq] at h
    obtain ⟨hb, hrest⟩ := h
    have hnil := hascii (by rw [hb, toNat_ofNat_of_lt (by omega)]; exact hn)
    rw [hnil, List.nil_append] at hrest
    refine ⟨ds, ?_, hrest⟩
    have hencode : encode [c] = encode [Char.ofNat n] := by
      have hself : encodeChar (Char.ofNat n) = [UInt8.ofNat n] := by
        rw [encodeChar, toNat_ofNat_of_valid (by omega)]
        exact if_pos hn
      simp only [encode_cons, encode_nil, hchar, hself, hb, hnil]
    rw [(List.cons.inj (encode_injective hencode)).1]

theorem ofNat_mem_of_mem_encode {cs : List Char} {n : Nat} (hn : n < 0x80)
    (h : UInt8.ofNat n ∈ encode cs) : Char.ofNat n ∈ cs := by
  induction cs with
  | nil => simp [encode_nil] at h
  | cons c cs ih =>
    rw [encode_cons, List.mem_append] at h
    rcases h with hc | hcs
    · obtain ⟨b, tails, hchar, -, htails, hascii⟩ := exists_encodeChar_eq_cons c
      have hself : startsChar (UInt8.ofNat n) = true := by
        simp [startsChar_ofNat (n := n) (by omega), hn]
      have hb : UInt8.ofNat n = b := by
        rw [hchar, List.mem_cons] at hc
        rcases hc with hb | htail
        · exact hb
        · rw [htails _ htail] at hself
          cases hself
      have hnil := hascii (by rw [← hb, toNat_ofNat_of_lt (by omega)]; exact hn)
      have hencode : encode (c :: cs) = UInt8.ofNat n :: encode cs := by
        rw [encode_cons, hchar, hnil, hb]
        rfl
      obtain ⟨ds, hds, -⟩ := exists_eq_cons_of_encode hn hencode
      rw [(List.cons.inj hds).1]
      exact List.mem_cons_self ..
    · exact List.mem_cons_of_mem _ (ih hcs)

end CallDepth.Text.Utf8
