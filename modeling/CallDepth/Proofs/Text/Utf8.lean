import CallDepth.Text.Utf8

/-!
# UTF-8 read back

A byte string is read without a broken piece exactly if it is the encoding of some characters, and
these are the characters that are read.
-/

namespace CallDepth.Text.Utf8

/-! ### Reading what is written -/

theorem toNat_ofNat_of_lt {n : Nat} (h : n < 256) : (UInt8.ofNat n).toNat = n := by
  rw [UInt8.toNat_ofNat']
  omega

theorem toNat_valid (c : Char) : c.toNat < 0xD800 ∨ 0xDFFF < c.toNat ∧ c.toNat < 0x110000 :=
  c.valid

theorem ofNat_eq_of_toNat {c : Char} {n : Nat} (h : n = c.toNat) : Char.ofNat n = c := by
  rw [h, Char.ofNat_toNat]

theorem step_start (done : List Piece) {b : Nat} (hb : b < 256) :
    Reading.step ⟨done, none⟩ (UInt8.ofNat b) = Reading.begin done b := by
  simp only [Reading.step, toNat_ofNat_of_lt hb]

theorem step_last (done : List Piece) {low high value b : Nat} (hb : b < 256)
    (hwithin : low ≤ b ∧ b ≤ high) :
    Reading.step ⟨done, some ⟨low, high, 0, value⟩⟩ (UInt8.ofNat b) =
      ⟨.char (Char.ofNat (value * 64 + b % 64)) :: done, none⟩ := by
  simp only [Reading.step, toNat_ofNat_of_lt hb, if_pos hwithin]

theorem step_further (done : List Piece) {low high n value b : Nat} (hb : b < 256)
    (hwithin : low ≤ b ∧ b ≤ high) :
    Reading.step ⟨done, some ⟨low, high, n + 1, value⟩⟩ (UInt8.ofNat b) =
      ⟨done, some ⟨0x80, 0xBF, n, value * 64 + b % 64⟩⟩ := by
  simp only [Reading.step, toNat_ofNat_of_lt hb, if_pos hwithin]

theorem begin_two (done : List Piece) {b : Nat} (h : 0xC2 ≤ b ∧ b ≤ 0xDF) :
    Reading.begin done b = ⟨done, some ⟨0x80, 0xBF, 0, b - 0xC0⟩⟩ := by
  have h1 : ¬ b < 0x80 := by omega
  have h2 : ¬ b < 0xC2 := by omega
  have h3 : b < 0xE0 := by omega
  simp only [Reading.begin, start, if_neg h1, if_neg h2, if_pos h3]

/-- The bounds of the second byte of three keep out what has a shorter form, and the halves of
pairs. -/
theorem begin_three (done : List Piece) {b : Nat} (h : 0xE0 ≤ b ∧ b ≤ 0xEF) :
    Reading.begin done b =
      ⟨done, some ⟨if b = 0xE0 then 0xA0 else 0x80, if b = 0xED then 0x9F else 0xBF, 1,
        b - 0xE0⟩⟩ := by
  have h1 : ¬ b < 0x80 := by omega
  have h2 : ¬ b < 0xC2 := by omega
  have h3 : ¬ b < 0xE0 := by omega
  have h4 : b < 0xF0 := by omega
  simp only [Reading.begin, start, if_neg h1, if_neg h2, if_neg h3]
  by_cases hlow : b = 0xE0
  · subst hlow
    rfl
  · by_cases hhigh : b = 0xED
    · subst hhigh
      rfl
    · simp only [if_neg hlow, if_neg hhigh, if_pos h4]

theorem begin_four (done : List Piece) {b : Nat} (h : 0xF0 ≤ b ∧ b ≤ 0xF4) :
    Reading.begin done b =
      ⟨done, some ⟨if b = 0xF0 then 0x90 else 0x80, if b = 0xF4 then 0x8F else 0xBF, 2,
        b - 0xF0⟩⟩ := by
  obtain rfl | rfl | rfl | rfl | rfl : b = 0xF0 ∨ b = 0xF1 ∨ b = 0xF2 ∨ b = 0xF3 ∨ b = 0xF4 := by
    omega
  all_goals rfl

theorem foldl_step_encodeChar (done : List Piece) (c : Char) :
    (encodeChar c).foldl Reading.step ⟨done, none⟩ = ⟨.char c :: done, none⟩ := by
  have hvalid := toNat_valid c
  unfold encodeChar
  dsimp only
  split
  · rename_i h
    have hstart : start c.toNat = .inl (.char (Char.ofNat c.toNat)) := by
      simp only [start, if_pos h]
    rw [List.foldl_cons, List.foldl_nil, step_start _ (by omega), Reading.begin, hstart,
      Char.ofNat_toNat]
  · split
    · simp only [List.foldl_cons, List.foldl_nil]
      rw [step_start _ (by omega), begin_two _ (by omega), step_last _ (by omega) (by omega),
        ofNat_eq_of_toNat (c := c) (by omega)]
    · split
      · have hwithin : (if 0xE0 + c.toNat / 4096 = 0xE0 then 0xA0 else 0x80) ≤
              0x80 + c.toNat / 64 % 64 ∧
            0x80 + c.toNat / 64 % 64 ≤ (if 0xE0 + c.toNat / 4096 = 0xED then 0x9F else 0xBF) := by
          constructor <;> split <;> omega
        simp only [List.foldl_cons, List.foldl_nil]
        rw [step_start _ (by omega), begin_three _ (by omega), step_further _ (by omega) hwithin,
          step_last _ (by omega) (by omega), ofNat_eq_of_toNat (c := c) (by omega)]
      · have hwithin : (if 0xF0 + c.toNat / 262144 = 0xF0 then 0x90 else 0x80) ≤
              0x80 + c.toNat / 4096 % 64 ∧
            0x80 + c.toNat / 4096 % 64 ≤
              (if 0xF0 + c.toNat / 262144 = 0xF4 then 0x8F else 0xBF) := by
          constructor <;> split <;> omega
        simp only [List.foldl_cons, List.foldl_nil]
        rw [step_start _ (by omega), begin_four _ (by omega), step_further _ (by omega) hwithin,
          step_further _ (by omega) (by omega), step_last _ (by omega) (by omega),
          ofNat_eq_of_toNat (c := c) (by omega)]

theorem foldl_step_encode (done : List Piece) (cs : List Char) :
    (encode cs).foldl Reading.step ⟨done, none⟩ = ⟨(cs.map .char).reverse ++ done, none⟩ := by
  induction cs generalizing done with
  | nil => rfl
  | cons c cs ih =>
    rw [encode_cons, List.foldl_append, foldl_step_encodeChar, ih]
    simp

theorem pieces_encode (cs : List Char) : pieces (encode cs) = cs.map .char := by
  rw [pieces, foldl_step_encode, Reading.finish]
  simp

/-! ### Writing what is read -/

theorem ofNat_eq_of_toNat_eq {b : UInt8} {n : Nat} (h : n = b.toNat) : UInt8.ofNat n = b := by
  rw [h, UInt8.ofNat_toNat]

theorem toNat_ofNat_of_valid {n : Nat} (h : n < 0xD800 ∨ 0xDFFF < n ∧ n < 0x110000) :
    (Char.ofNat n).toNat = n := by
  rw [Char.ofNat, dif_pos h]
  rfl

/-- A byte that goes on with a character. -/
def IsTail (b : UInt8) : Prop := 0x80 ≤ b.toNat ∧ b.toNat ≤ 0xBF

theorem encodeChar_two {a b : UInt8} (ha : 0xC2 ≤ a.toNat ∧ a.toNat ≤ 0xDF) (hb : IsTail b) :
    encodeChar (Char.ofNat ((a.toNat - 0xC0) * 64 + b.toNat % 64)) = [a, b] := by
  unfold IsTail at hb
  unfold encodeChar
  rw [toNat_ofNat_of_valid (by omega)]
  dsimp only
  rw [if_neg (by omega), if_pos (by omega), ofNat_eq_of_toNat_eq (b := a) (by omega),
    ofNat_eq_of_toNat_eq (b := b) (by omega)]

theorem encodeChar_three {a b c : UInt8} (ha : 0xE0 ≤ a.toNat ∧ a.toNat ≤ 0xEF) (hb : IsTail b)
    (hc : IsTail c) (hlow : a.toNat = 0xE0 → 0xA0 ≤ b.toNat)
    (hhigh : a.toNat = 0xED → b.toNat ≤ 0x9F) :
    encodeChar (Char.ofNat (((a.toNat - 0xE0) * 64 + b.toNat % 64) * 64 + c.toNat % 64)) =
      [a, b, c] := by
  unfold IsTail at hb hc
  unfold encodeChar
  rw [toNat_ofNat_of_valid (by omega)]
  dsimp only
  rw [if_neg (by omega), if_neg (by omega), if_pos (by omega),
    ofNat_eq_of_toNat_eq (b := a) (by omega), ofNat_eq_of_toNat_eq (b := b) (by omega),
    ofNat_eq_of_toNat_eq (b := c) (by omega)]

theorem encodeChar_four {a b c d : UInt8} (ha : 0xF0 ≤ a.toNat ∧ a.toNat ≤ 0xF4) (hb : IsTail b)
    (hc : IsTail c) (hd : IsTail d) (hlow : a.toNat = 0xF0 → 0x90 ≤ b.toNat)
    (hhigh : a.toNat = 0xF4 → b.toNat ≤ 0x8F) :
    encodeChar (Char.ofNat ((((a.toNat - 0xF0) * 64 + b.toNat % 64) * 64 + c.toNat % 64) * 64 +
      d.toNat % 64)) = [a, b, c, d] := by
  unfold IsTail at hb hc hd
  unfold encodeChar
  rw [toNat_ofNat_of_valid (by omega)]
  dsimp only
  rw [if_neg (by omega), if_neg (by omega), if_neg (by omega),
    ofNat_eq_of_toNat_eq (b := a) (by omega), ofNat_eq_of_toNat_eq (b := b) (by omega),
    ofNat_eq_of_toNat_eq (b := c) (by omega), ofNat_eq_of_toNat_eq (b := d) (by omega)]

/-- Whether bytes that start a character come, with every byte that the state lets follow, to the
encoding of the character that is then read. -/
def Leads (front : Bytes) (low high value : Nat) : Nat → Prop
  | 0 => ∀ b : UInt8, low ≤ b.toNat ∧ b.toNat ≤ high →
    encodeChar (Char.ofNat (value * 64 + b.toNat % 64)) = front ++ [b]
  | n + 1 => ∀ b : UInt8, low ≤ b.toNat ∧ b.toNat ≤ high →
    Leads (front ++ [b]) 0x80 0xBF (value * 64 + b.toNat % 64) n

theorem leads_of_start {a : UInt8} {s : Started} (h : start a.toNat = .inr s) :
    Leads [a] s.low s.high s.value s.further := by
  by_cases h2 : 0xC2 ≤ a.toNat ∧ a.toNat ≤ 0xDF
  · have hbegin := begin_two [] h2
    rw [Reading.begin, h] at hbegin
    cases hbegin
    exact fun b hb => encodeChar_two h2 hb
  · by_cases h3 : 0xE0 ≤ a.toNat ∧ a.toNat ≤ 0xEF
    · have hbegin := begin_three [] h3
      rw [Reading.begin, h] at hbegin
      cases hbegin
      rintro b ⟨hbelow, habove⟩ c hc
      dsimp only at hbelow habove
      have hlow : a.toNat = 0xE0 → 0xA0 ≤ b.toNat := fun ha => by simpa [ha] using hbelow
      have hhigh : a.toNat = 0xED → b.toNat ≤ 0x9F := fun ha => by simpa [ha] using habove
      have htail : IsTail b := by
        constructor
        · split at hbelow <;> omega
        · split at habove <;> omega
      exact encodeChar_three h3 htail hc hlow hhigh
    · by_cases h4 : 0xF0 ≤ a.toNat ∧ a.toNat ≤ 0xF4
      · have hbegin := begin_four [] h4
        rw [Reading.begin, h] at hbegin
        cases hbegin
        rintro b ⟨hbelow, habove⟩ c hc d hd
        dsimp only at hbelow habove
        have hlow : a.toNat = 0xF0 → 0x90 ≤ b.toNat := fun ha => by simpa [ha] using hbelow
        have hhigh : a.toNat = 0xF4 → b.toNat ≤ 0x8F := fun ha => by simpa [ha] using habove
        have htail : IsTail b := by
          constructor
          · split at hbelow <;> omega
          · split at habove <;> omega
        exact encodeChar_four h4 htail hc hd hlow hhigh
      · -- no other byte starts a character of several bytes
        grind [start]

/-- The bytes that have been read since the last whole character. -/
def Reading.Holds (r : Reading) (front : Bytes) : Prop :=
  match r.underway with
  | none => front = []
  | some s => Leads front s.low s.high s.value s.further

theorem Reading.holds_begin {done : List Piece} {b : UInt8} {s : Started}
    (h : start b.toNat = .inr s) : (Reading.begin done b.toNat).Holds [b] := by
  rw [Reading.begin, h]
  exact leads_of_start h

theorem encodeChar_of_start {b : UInt8} {c : Char} (h : start b.toNat = .inl (.char c)) :
    encodeChar c = [b] := by
  have hlt : b.toNat < 0x80 := by grind [start]
  rw [start, if_pos hlt] at h
  cases h
  unfold encodeChar
  rw [toNat_ofNat_of_valid (by omega)]
  dsimp only
  rw [if_pos hlt, UInt8.ofNat_toNat]

/-- What one byte does: it is kept as part of a character, completes one, or breaks something. -/
theorem Reading.step_cases {r : Reading} {front : Bytes} (h : r.Holds front) (b : UInt8) :
    ((r.step b).done = r.done ∧ (r.step b).Holds (front ++ [b])) ∨
    (∃ c, (r.step b).done = .char c :: r.done ∧ (r.step b).Holds [] ∧
      encodeChar c = front ++ [b]) ∨
    .broken ∈ (r.step b).done := by
  obtain ⟨done, underway⟩ := r
  cases underway with
  | none =>
    obtain rfl : front = [] := h
    simp only [Reading.step]
    cases hstart : start b.toNat with
    | inr s => exact .inl ⟨by simp [Reading.begin, hstart], Reading.holds_begin hstart⟩
    | inl piece =>
      right
      cases piece with
      | char c =>
        left
        exact ⟨c, by simp [Reading.begin, hstart], by simp [Reading.begin, hstart, Reading.Holds],
          encodeChar_of_start hstart⟩
      | broken =>
        right
        simp [Reading.begin, hstart]
  | some s =>
    have hleads : Leads front s.low s.high s.value s.further := h
    simp only [Reading.step]
    split
    · rename_i hwithin
      cases hfurther : s.further with
      | zero =>
        rw [hfurther] at hleads
        exact .inr (.inl ⟨_, rfl, rfl, hleads b hwithin⟩)
      | succ n =>
        rw [hfurther] at hleads
        exact .inl ⟨rfl, hleads b hwithin⟩
    · right
      right
      unfold Reading.begin
      split <;> simp

theorem Reading.mem_done_step {r : Reading} {p : Piece} (h : p ∈ r.done) (b : UInt8) :
    p ∈ (r.step b).done := by
  have hbegin : ∀ done, p ∈ done → p ∈ (Reading.begin done b.toNat).done := by
    intro done hdone
    unfold Reading.begin
    split
    · exact List.mem_cons_of_mem _ hdone
    · exact hdone
  obtain ⟨done, underway⟩ := r
  unfold Reading.step
  dsimp only
  split
  · exact hbegin _ h
  · split
    · split
      · exact List.mem_cons_of_mem _ h
      · exact h
    · exact hbegin _ (List.mem_cons_of_mem _ h)

theorem Reading.broken_mem_finish {r : Reading} (h : .broken ∈ r.done) (bs : Bytes) :
    .broken ∈ (bs.foldl Reading.step r).finish := by
  induction bs generalizing r with
  | nil =>
    simp only [List.foldl_nil, Reading.finish]
    split <;> simp [h]
  | cons b rest ih => exact ih (Reading.mem_done_step h b)

theorem Reading.finish_eq_of_holds {r : Reading} {front bs : Bytes} (h : r.Holds front)
    (hwhole : .broken ∉ (bs.foldl Reading.step r).finish) :
    ∃ cs : List Char, (bs.foldl Reading.step r).finish = r.done.reverse ++ cs.map .char ∧
      encode cs = front ++ bs := by
  induction bs generalizing r front with
  | nil =>
    simp only [List.foldl_nil, Reading.finish, Reading.Holds] at h hwhole ⊢
    cases hunderway : r.underway with
    | none =>
      simp only [hunderway] at h
      exact ⟨[], by simp, by simp [h, encode_nil]⟩
    | some s => simp [hunderway] at hwhole
  | cons b rest ih =>
    rw [List.foldl_cons] at hwhole ⊢
    rcases Reading.step_cases h b with ⟨hdone, hholds⟩ | ⟨c, hdone, hholds, hchar⟩ | hbroken
    · obtain ⟨cs, hfinish, hencode⟩ := ih hholds hwhole
      exact ⟨cs, by rw [hfinish, hdone], by rw [hencode]; simp⟩
    · obtain ⟨cs, hfinish, hencode⟩ := ih hholds hwhole
      exact ⟨c :: cs, by rw [hfinish, hdone]; simp, by rw [encode_cons, hchar, hencode]; simp⟩
    · exact absurd (Reading.broken_mem_finish hbroken rest) hwhole

theorem pieces_eq_map_char_iff {bs : Bytes} {cs : List Char} :
    pieces bs = cs.map .char ↔ bs = encode cs := by
  constructor
  · intro h
    have hwhole : Piece.broken ∉ pieces bs := by
      rw [h]
      simp
    obtain ⟨ds, hfinish, hencode⟩ := Reading.finish_eq_of_holds (r := ⟨[], none⟩) rfl hwhole
    have hds : ds = cs := by
      have hmap : ds.map Piece.char = cs.map Piece.char := hfinish.symm.trans h
      exact (List.map_inj_right fun _ _ heq => Piece.char.inj heq).mp hmap
    rw [← hds, hencode]
    rfl
  · rintro rfl
    exact pieces_encode cs

theorem mapM_char?_eq_some_iff {ps : List Piece} {cs : List Char} :
    ps.mapM Piece.char? = some cs ↔ ps = cs.map .char := by
  induction ps generalizing cs with
  | nil => cases cs <;> simp
  | cons p ps ih =>
    cases p with
    | broken => cases cs <;> simp [Piece.char?]
    | char c =>
      cases cs with
      | nil => simp [Piece.char?, Option.bind_eq_some_iff]
      | cons d ds =>
        simp only [List.mapM_cons, Piece.char?, bind, Option.bind_some, pure,
          Option.bind_eq_some_iff, Option.some.injEq, List.cons.injEq, List.map_cons,
          Piece.char.injEq]
        constructor
        · rintro ⟨es, hes, rfl, rfl⟩
          exact ⟨rfl, ih.mp hes⟩
        · rintro ⟨rfl, hps⟩
          exact ⟨ds, ih.mpr hps, rfl, rfl⟩

/-- The characters that bytes are read as are those that they encode. -/
theorem decode?_eq_some_iff {bs : Bytes} {cs : List Char} :
    decode? bs = some cs ↔ bs = encode cs := by
  rw [decode?, mapM_char?_eq_some_iff, pieces_eq_map_char_iff]

theorem decode?_encode (cs : List Char) : decode? (encode cs) = some cs :=
  decode?_eq_some_iff.mpr rfl

theorem toString?_eq_some_iff {bs : Bytes} {s : String} :
    toString? bs = some s ↔ bs = ofString s := by
  simp only [toString?, Option.map_eq_some_iff, decode?_eq_some_iff, ofString]
  constructor
  · rintro ⟨cs, rfl, rfl⟩
    rw [String.toList_ofList]
  · rintro rfl
    exact ⟨s.toList, rfl, String.ofList_toList⟩

theorem encode_injective {cs ds : List Char} (h : encode cs = encode ds) : cs = ds := by
  have hdecode := decode?_encode cs
  rw [h, decode?_encode] at hdecode
  exact (Option.some.inj hdecode).symm

/-- What follows the encoding of characters, where all of it is the encoding of some, is one of
itself. -/
theorem exists_append_of_encode_append {cs ds : List Char} {tail : Bytes}
    (h : encode cs ++ tail = encode ds) : ∃ es, ds = cs ++ es ∧ tail = encode es := by
  have hpieces : (tail.foldl Reading.step ⟨(cs.map .char).reverse ++ [], none⟩).finish =
      ds.map .char := by
    rw [← foldl_step_encode, ← List.foldl_append, h]
    exact pieces_encode ds
  have hwhole : Piece.broken ∉ ds.map .char := by simp
  obtain ⟨es, hfinish, hencode⟩ := Reading.finish_eq_of_holds
    (r := ⟨(cs.map .char).reverse ++ [], none⟩) rfl (hpieces ▸ hwhole)
  refine ⟨es, ?_, hencode.symm⟩
  have hmap : ds.map Piece.char = (cs ++ es).map .char := by
    rw [← hpieces, hfinish]
    simp
  exact (List.map_inj_right fun _ _ heq => Piece.char.inj heq).mp hmap

/-- Bytes of texts start one another exactly if the texts do, since no character is cut. -/
theorem encode_isPrefix_encode_iff {cs ds : List Char} :
    encode cs <+: encode ds ↔ cs <+: ds := by
  constructor
  · rintro ⟨tail, h⟩
    obtain ⟨es, rfl, -⟩ := exists_append_of_encode_append h
    exact List.prefix_append cs es
  · rintro ⟨es, rfl⟩
    rw [encode_append]
    exact List.prefix_append ..

/-! ### Sizes -/

theorem length_encodeChar (c : Char) : (encodeChar c).length = c.utf8Size := by
  have htoNat : c.toNat = c.val.toNat := rfl
  simp only [encodeChar, Char.utf8Size, UInt32.le_iff_toNat_le, htoNat]
  grind

theorem length_encode (cs : List Char) :
    (encode cs).length = (String.ofList cs).utf8ByteSize := by
  induction cs with
  | nil => rfl
  | cons c cs ih =>
    rw [encode_cons, List.length_append, ih, length_encodeChar, String.ofList_cons,
      String.utf8ByteSize_append, String.utf8ByteSize_singleton]

end CallDepth.Text.Utf8
