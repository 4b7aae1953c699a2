import CallDepth.Proofs.CallIndex
import CallDepth.Proofs.Method.Form
import CallDepth.Proofs.Text.Utf8
import CallDepth.Store.Snapshot

/-!
# Reading a snapshot back

Each decoder of a snapshot is the inverse of the encoder of the same kind of value: it reads back what
is written of the values that can be kept, and it reads nothing else. The index that a snapshot holds
is therefore the one that was written.
-/

namespace CallDepth.Snapshot

open Text

variable {α β γ : Type}

/-- Whether a decoder reads what an encoder writes of the valid values, and nothing else. -/
structure Inverts (decode : Decoder α) (encode : α → Bytes) (valid : α → Prop) : Prop where
  decode_append : ∀ {a : α}, valid a → ∀ rest, decode (encode a ++ rest) = .ok (a, rest)
  eq_append : ∀ {bs rest : Bytes} {a : α}, decode bs = .ok (a, rest) →
    valid a ∧ bs = encode a ++ rest

theorem Inverts.eq_of_append {decode : Decoder α} {encode : α → Bytes} {valid : α → Prop}
    (h : Inverts decode encode valid) {a b : α} (ha : valid a) (hb : valid b) {rest rest' : Bytes}
    (heq : encode a ++ rest = encode b ++ rest') : a = b := by
  have hdecode := h.decode_append ha rest
  rw [heq, h.decode_append hb rest'] at hdecode
  cases hdecode
  rfl

/-! ### Numbers and texts -/

theorem inverts_word : Inverts decodeWord word (· < wordCount) where
  decode_append h rest := by rw [decodeWord, takeWord?_word_append _ h]
  eq_append {bs rest n} h := by
    unfold decodeWord at h
    split at h
    · rename_i result htake
      cases h
      obtain ⟨hbs, hlt⟩ := eq_word_append_of_takeWord? htake
      exact ⟨hlt, hbs⟩
    · cases h

/-- Whether the length of a text can be written. -/
def Fits (s : String) : Prop := (Utf8.ofString s).length < wordCount

theorem inverts_string : Inverts decodeString encodeString Fits where
  decode_append {s} h rest := by
    have htext : Utf8.toString? (Utf8.ofString s) = some s := Utf8.toString?_eq_some_iff.mpr rfl
    simp only [decodeString, encodeString, List.append_assoc, inverts_word.decode_append h, bind,
      Except.bind, takeExactly?_append, htext]
  eq_append {bs rest s} h := by
    unfold decodeString at h
    cases hword : decodeWord bs with
    | error defect => simp [hword, bind, Except.bind] at h
    | ok result =>
      obtain ⟨length, after⟩ := result
      obtain ⟨hlt, rfl⟩ := inverts_word.eq_append hword
      rw [hword] at h
      dsimp only [bind, Except.bind] at h
      split at h
      · cases h
      · rename_i front rest' htake
        obtain ⟨rfl, rfl⟩ := eq_append_of_takeExactly? htake
        split at h
        · rename_i text htext
          cases h
          obtain rfl := Utf8.toString?_eq_some_iff.mp htext
          exact ⟨hlt, (List.append_assoc ..).symm⟩
        · cases h

/-- Whether a text can be kept as the name of a method. -/
def Names (s : String) : Prop := Fits s ∧ (Method.parse? s).isSome = true

theorem inverts_method : Inverts decodeMethod encodeString Names where
  decode_append {s} h rest := by
    obtain ⟨m, hm⟩ := Option.isSome_iff_exists.mp h.2
    simp only [decodeMethod, inverts_string.decode_append h.1, bind, Except.bind, hm]
  eq_append {bs rest s} h := by
    unfold decodeMethod at h
    cases hstring : decodeString bs with
    | error defect => simp [hstring, bind, Except.bind] at h
    | ok result =>
      obtain ⟨text, after⟩ := result
      obtain ⟨hfits, rfl⟩ := inverts_string.eq_append hstring
      rw [hstring] at h
      dsimp only [bind, Except.bind] at h
      split at h
      · rename_i m hm
        cases h
        exact ⟨⟨hfits, by rw [hm]; rfl⟩, rfl⟩
      · cases h

/-! ### One after the other -/

section

variable {decode : Decoder α} {encode : α → Bytes} {valid : α → Prop}

theorem Inverts.pair {decode' : Decoder β} {encode' : β → Bytes} {valid' : β → Prop}
    (h : Inverts decode encode valid) (h' : Inverts decode' encode' valid') (make : α → β → γ)
    {first : γ → α} {second : γ → β} (hmake : ∀ c, make (first c) (second c) = c)
    (hfirst : ∀ a b, first (make a b) = a) (hsecond : ∀ a b, second (make a b) = b) :
    Inverts
      (fun bs => do
        let (a, bs) ← decode bs
        let (b, bs) ← decode' bs
        .ok (make a b, bs))
      (fun c => encode (first c) ++ encode' (second c))
      (fun c => valid (first c) ∧ valid' (second c)) where
  decode_append {c} hc rest := by
    simp only [List.append_assoc, h.decode_append hc.1, h'.decode_append hc.2, bind, Except.bind,
      hmake]
  eq_append {bs rest c} hc := by
    cases hfound : decode bs with
    | error defect => simp [hfound, bind, Except.bind] at hc
    | ok result =>
      obtain ⟨a, after⟩ := result
      obtain ⟨ha, rfl⟩ := h.eq_append hfound
      rw [hfound] at hc
      dsimp only [bind, Except.bind] at hc
      cases hfound' : decode' after with
      | error defect => simp [hfound'] at hc
      | ok result =>
        obtain ⟨b, after'⟩ := result
        obtain ⟨hb, rfl⟩ := h'.eq_append hfound'
        rw [hfound'] at hc
        cases hc
        rw [hfirst, hsecond, List.append_assoc]
        exact ⟨⟨ha, hb⟩, rfl⟩

/-- Reading goes on after the values that are written, with those still to come. -/
theorem Inverts.manyFrom_append (h : Inverts decode encode valid) {values : List α}
    (hvalid : ∀ a ∈ values, valid a) (done : List α) (count : Nat) (rest : Bytes) :
    decodeManyFrom decode done (values.length + count) (values.flatMap encode ++ rest) =
      decodeManyFrom decode (values.reverse ++ done) count rest := by
  induction values generalizing done with
  | nil => simp
  | cons a values ih =>
    have ha := h.decode_append (hvalid a (List.mem_cons_self ..)) (values.flatMap encode ++ rest)
    have hvalues := ih (fun x hx => hvalid x (List.mem_cons_of_mem _ hx)) (a :: done)
    rw [List.length_cons, Nat.succ_add, List.flatMap_cons, List.append_assoc, decodeManyFrom, ha]
    dsimp only
    rw [hvalues, List.reverse_cons, List.append_assoc, List.singleton_append]

theorem Inverts.eq_append_of_manyFrom (h : Inverts decode encode valid) {done values : List α}
    {count : Nat} {bs rest : Bytes} (hmany : decodeManyFrom decode done count bs = .ok (values, rest)) :
    ∃ read, values = done.reverse ++ read ∧ read.length = count ∧ (∀ a ∈ read, valid a) ∧
      bs = read.flatMap encode ++ rest := by
  induction count generalizing done bs with
  | zero =>
    cases hmany
    exact ⟨[], by simp, rfl, nofun, rfl⟩
  | succ count ih =>
    unfold decodeManyFrom at hmany
    split at hmany
    · cases hmany
    · rename_i a after hfound
      obtain ⟨ha, rfl⟩ := h.eq_append hfound
      obtain ⟨read, rfl, rfl, hread, rfl⟩ := ih hmany
      refine ⟨a :: read, by simp, rfl, ?_, by simp⟩
      exact List.forall_mem_cons.mpr ⟨ha, hread⟩

theorem Inverts.many (h : Inverts decode encode valid) :
    Inverts (decodeMany decode) (fun values => word values.length ++ values.flatMap encode)
      (fun values => values.length < wordCount ∧ ∀ a ∈ values, valid a) where
  decode_append {values} hvalues rest := by
    have hread := h.manyFrom_append hvalues.2 [] 0 rest
    rw [Nat.add_zero, decodeManyFrom, List.append_nil, List.reverse_reverse] at hread
    simp only [decodeMany, List.append_assoc, inverts_word.decode_append hvalues.1, bind,
      Except.bind, hread]
  eq_append {bs rest values} hmany := by
    unfold decodeMany at hmany
    cases hword : decodeWord bs with
    | error defect => simp [hword, bind, Except.bind] at hmany
    | ok result =>
      obtain ⟨count, after⟩ := result
      obtain ⟨hlt, rfl⟩ := inverts_word.eq_append hword
      rw [hword] at hmany
      obtain ⟨read, rfl, rfl, hread, rfl⟩ := h.eq_append_of_manyFrom hmany
      exact ⟨⟨hlt, hread⟩, (List.append_assoc ..).symm⟩

end

/-! ### Indexes -/

def KeepsEntry (entry : CallEntry) : Prop := Names entry.callee ∧ entry.level < wordCount

theorem inverts_entry : Inverts decodeEntry encodeEntry KeepsEntry :=
  inverts_method.pair inverts_word CallEntry.mk (fun _ => rfl) (fun _ _ => rfl) (fun _ _ => rfl)

def KeepsRow (row : String × List CallEntry) : Prop :=
  Names row.1 ∧ row.2.length < wordCount ∧ ∀ entry ∈ row.2, KeepsEntry entry

theorem encodeRow_eq : encodeRow = fun row : String × List CallEntry =>
    encodeString row.1 ++ (word row.2.length ++ row.2.flatMap encodeEntry) := by
  funext row
  rw [encodeRow, List.append_assoc]

theorem inverts_row : Inverts decodeRow encodeRow KeepsRow := by
  have h := inverts_method.pair inverts_entry.many Prod.mk (fun _ => rfl) (fun _ _ => rfl)
    fun _ _ => rfl
  rw [encodeRow_eq]
  exact h

/-- Whether an index can be kept: its names are those of methods, and all of its numbers are words. -/
def Keeps (index : CallIndex) : Prop :=
  index.size < wordCount ∧ ∀ row ∈ index.toList, KeepsRow row

/-- What is written of an index is read back, whatever follows it. -/
theorem decode_encode_append {index : CallIndex} (h : Keeps index) (rest : Bytes) :
    decode (encode index ++ rest) = .ok index := by
  have hrows := inverts_row.many.decode_append (a := index.toList)
    ⟨by rw [CallIndex.length_toList]; exact h.1, h.2⟩ rest
  rw [CallIndex.length_toList] at hrows
  rw [decode, encode, hrows]
  exact congrArg Except.ok index.ofList_toList

theorem decode_encode {index : CallIndex} (h : Keeps index) : decode (encode index) = .ok index := by
  have hdecode := decode_encode_append h []
  rwa [List.append_nil] at hdecode

end CallDepth.Snapshot
