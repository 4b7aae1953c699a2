import CallDepth.Proofs.Method.Leading
import CallDepth.Proofs.Record.Form
import CallDepth.Proofs.Text.Boundary

/-!
# Where a record is cut

A line is cut apart at offsets in its bytes, and whether the kind of a call stands between
parentheses is seen from its bytes alone. Each such cut lies between two characters, and those of a
written record are where its parts meet.
-/

namespace CallDepth.CallRecord

open Text

/-- Whether bytes start with a space and an ASCII byte between parentheses and go on after that. -/
def looksBracketed : Bytes → Bool
  | a :: b :: kind :: d :: _ :: _ => a = 0x20 && b = 0x28 && d = 0x29 && kind < 0x80
  | _ => false

/-- The cuts in the bytes after a caller: around the kind between the parentheses and after them, or
else in front of the third character. -/
def kindCuts (bs : Bytes) : List Nat :=
  if looksBracketed bs then [2, 3, 4] else (Utf8.charStarts bs)[2]?.toList

/-- The cuts in the bytes after the marker. -/
def bodyCuts (cs : List Char) : List Nat :=
  match Method.leading? (String.ofList cs) with
  | none => []
  | some (_, size) => size :: (kindCuts ((Utf8.encode cs).drop size)).map (size + ·)

/-- The cuts in the bytes of a line: after the marker, after the caller, and those of the
separator, as far as the line can be read. -/
def cuts (cs : List Char) : List Nat :=
  match afterMarker? cs with
  | none => []
  | some body => marker.length :: (bodyCuts body).map (marker.length + ·)

/-! ### The separator in bytes -/

theorem encodeChar_of_lt {c : Char} (h : c.toNat < 128) :
    Utf8.encodeChar c = [UInt8.ofNat c.toNat] := if_pos h

theorem exists_eq_of_looksBracketed {cs : List Char}
    (h : looksBracketed (Utf8.encode cs) = true) :
    ∃ kind rest, kind.toNat < 128 ∧ cs = ' ' :: '(' :: kind :: ')' :: rest := by
  unfold looksBracketed at h
  split at h
  · rename_i a b kind d e more hencode
    simp only [Bool.and_eq_true, decide_eq_true_eq] at h
    obtain ⟨⟨⟨rfl, rfl⟩, rfl⟩, hkind⟩ := h
    have hascii : kind.toNat < 128 := UInt8.lt_iff_toNat_lt.mp hkind
    obtain ⟨cs₁, rfl, h₁⟩ := Utf8.exists_eq_cons_of_encode (n := 0x20) (by omega) hencode
    obtain ⟨cs₂, rfl, h₂⟩ := Utf8.exists_eq_cons_of_encode (n := 0x28) (by omega) h₁
    rw [← UInt8.ofNat_toNat (x := kind)] at h₂
    obtain ⟨cs₃, rfl, h₃⟩ := Utf8.exists_eq_cons_of_encode hascii h₂
    obtain ⟨cs₄, rfl, -⟩ := Utf8.exists_eq_cons_of_encode (n := 0x29) (by omega) h₃
    refine ⟨Char.ofNat kind.toNat, cs₄, ?_, rfl⟩
    rw [Utf8.toNat_ofNat_of_valid (by omega)]
    exact hascii
  · cases h

theorem looksBracketed_encode {kind : Char} (h : kind.toNat < 128) {rest : List Char}
    (hrest : rest ≠ []) :
    looksBracketed (Utf8.encode (' ' :: '(' :: kind :: ')' :: rest)) = true := by
  have hspace : Utf8.encodeChar ' ' = [0x20] := rfl
  have hopen : Utf8.encodeChar '(' = [0x28] := rfl
  have hclose : Utf8.encodeChar ')' = [0x29] := rfl
  have hkind : UInt8.ofNat kind.toNat < 0x80 := by
    rw [UInt8.lt_iff_toNat_lt, Utf8.toNat_ofNat_of_lt (by omega)]
    exact h
  obtain ⟨c, cs, rfl⟩ := List.exists_cons_of_ne_nil hrest
  obtain ⟨b, tails, hchar, -⟩ := Utf8.exists_encodeChar_eq_cons c
  simp [Utf8.encode_cons, hspace, hopen, hclose, encodeChar_of_lt h, hchar, looksBracketed, hkind]

theorem isBoundary_of_mem_kindCuts {cs : List Char} {offset : Nat}
    (h : offset ∈ kindCuts (Utf8.encode cs)) : Utf8.IsBoundary cs offset := by
  unfold kindCuts at h
  split at h
  · rename_i hlooks
    obtain ⟨kind, rest, hkind, rfl⟩ := exists_eq_of_looksBracketed hlooks
    have hlength : (Utf8.encodeChar kind).length = 1 := by rw [encodeChar_of_lt hkind]; rfl
    simp only [List.mem_cons, List.not_mem_nil, or_false] at h
    rcases h with rfl | rfl | rfl
    · exact ⟨[' ', '('], kind :: ')' :: rest, rfl, rfl⟩
    · refine ⟨[' ', '(', kind], ')' :: rest, rfl, ?_⟩
      simp only [Utf8.encode_cons, Utf8.encode_nil, List.length_append, hlength]
      rfl
    · refine ⟨[' ', '(', kind, ')'], rest, rfl, ?_⟩
      simp only [Utf8.encode_cons, Utf8.encode_nil, List.length_append, hlength]
      rfl
  · -- with fewer than three characters there is no cut
    match cs with
    | a :: b :: c :: rest =>
      simp only [Utf8.charStarts, Utf8.charStartsFrom_encode_cons, List.getElem?_cons_succ,
        List.getElem?_cons_zero, Option.toList_some, List.mem_singleton] at h
      refine ⟨[a, b], c :: rest, rfl, ?_⟩
      simp only [h, Utf8.encode_cons, Utf8.encode_nil, List.length_append, List.length_nil]
      omega
    | [] | [_] | [_, _] =>
      simp [Utf8.charStarts, Utf8.charStartsFrom_encode_cons, Utf8.encode_nil,
        Utf8.charStartsFrom] at h

/-- The cuts around the kind and in front of the callee. -/
def Separator.cuts : Separator → List Nat
  | bracketed _ _ => [2, 3, 4]
  | pair first second => [(Utf8.encode [first, second]).length]

theorem kindCuts_text_append (s : Separator) (f : Method.Form) (tail : List Char) :
    kindCuts (Utf8.encode (s.text ++ (f.text ++ tail))) = s.cuts := by
  obtain ⟨c, d, rest, htext, hd⟩ := exists_text_eq_cons_cons f
  rw [htext]
  cases s with
  | bracketed kind isAscii =>
    have hne : c :: d :: rest ++ tail ≠ [] := List.cons_ne_nil _ _
    have hlooks := looksBracketed_encode isAscii hne
    simp only [Separator.text, List.cons_append, List.nil_append] at hlooks ⊢
    rw [kindCuts, if_pos hlooks, Separator.cuts]
  | pair first second =>
    have hlooks : ¬ looksBracketed (Utf8.encode (first :: second :: c :: d :: (rest ++ tail))) := by
      intro hlooks
      obtain ⟨kind, more, -, heq⟩ := exists_eq_of_looksBracketed hlooks
      simp only [List.cons.injEq] at heq
      exact hd heq.2.2.2.1
    simp only [Separator.text, List.cons_append, List.nil_append]
    rw [kindCuts, if_neg hlooks]
    simp only [Utf8.charStarts, Utf8.charStartsFrom_encode_cons, List.getElem?_cons_succ,
      List.getElem?_cons_zero, Option.toList_some, Separator.cuts]
    simp [Utf8.encode_cons, Utf8.encode_nil]

/-! ### The whole line -/

theorem isBoundary_of_mem_bodyCuts {cs : List Char} {offset : Nat} (h : offset ∈ bodyCuts cs) :
    Utf8.IsBoundary cs offset := by
  unfold bodyCuts at h
  split at h
  · cases h
  · rename_i m size hleading
    obtain ⟨f, ⟨rest, hcs⟩, -, rfl⟩ := Method.leading?_eq_some_iff.mp hleading
    rw [String.toList_ofList] at hcs
    subst hcs
    rw [Utf8.encode_append, List.drop_left, List.mem_cons, List.mem_map] at h
    rcases h with rfl | ⟨offset, hoffset, rfl⟩
    · exact Utf8.isBoundary_append f.text rest
    · exact (isBoundary_of_mem_kindCuts hoffset).append_left f.text

theorem isBoundary_of_mem_cuts {cs : List Char} {offset : Nat} (h : offset ∈ cuts cs) :
    Utf8.IsBoundary cs offset := by
  unfold cuts at h
  split at h
  · cases h
  · rename_i body hbody
    rw [afterMarker?_eq_some_iff.mp hbody]
    rw [List.mem_cons, List.mem_map] at h
    rcases h with rfl | ⟨offset, hoffset, rfl⟩
    · exact Utf8.isBoundary_append marker body
    · exact (isBoundary_of_mem_bodyCuts hoffset).append_left marker

/-- The offsets at which the parts of a written record meet, and around its kind. -/
def Form.cuts (f : Form) : List Nat :=
  let size := (Utf8.encode f.caller.text).length
  (0 :: size :: f.separator.cuts.map (size + ·)).map (marker.length + ·)

theorem cuts_text (f : Form) : CallRecord.cuts f.text = f.cuts := by
  have hmarker : afterMarker? f.text = some f.body := afterMarker?_eq_some_iff.mpr rfl
  have hbody : bodyCuts f.body = (Utf8.encode f.caller.text).length ::
      f.separator.cuts.map ((Utf8.encode f.caller.text).length + ·) := by
    have hleading : Method.leading? (String.ofList f.body) =
        some (f.caller.method, (Utf8.encode f.caller.text).length) := by
      refine Method.leading?_eq_some_iff.mpr ⟨f.caller, ?_, rfl, rfl⟩
      rw [String.toList_ofList]
      exact List.prefix_append ..
    rw [bodyCuts, hleading, Form.body]
    dsimp only
    rw [Utf8.encode_append, List.drop_left, kindCuts_text_append]
  rw [CallRecord.cuts, hmarker]
  dsimp only
  rw [hbody]
  rfl

end CallDepth.CallRecord
