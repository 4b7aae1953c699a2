import CallDepth.Proofs.Json.Document
import CallDepth.Proofs.Log.Size
import CallDepth.Proofs.Store.MethodList

/-!
# Sizes of lists in files

A string in a document takes no more bytes than the document, escapes included, and there are no more
strings than characters. So where the length of a file is a word, the list of methods that it holds
can be kept with an index of them.
-/

namespace CallDepth

open Text

namespace Json

section

variable {text cs : List Char}

theorem length_encode_cons (c : Char) (cs : List Char) :
    (Utf8.encode (c :: cs)).length = c.utf8Size + (Utf8.encode cs).length := by
  rw [Utf8.encode_cons, List.length_append, Utf8.length_encodeChar]

theorem length_le_length_encode (cs : List Char) : cs.length ≤ (Utf8.encode cs).length := by
  induction cs with
  | nil => exact Nat.le_refl 0
  | cons c cs ih =>
    have hc := c.utf8Size_pos
    rw [length_encode_cons, List.length_cons]
    omega

/-- A character takes no more bytes than the escape that stands for it has characters. -/
theorem IsEscape.utf8Size_le {c : Char} (h : IsEscape text c) : c.utf8Size ≤ text.length := by
  have hfour : ∀ {code : List Char} {n : Nat}, IsHex4 code n → code.length = 4 := by
    rintro _ _ ⟨⟩
    rfl
  have hc := c.utf8Size_le_four
  cases h with
  | code hcode hn =>
    rw [List.length_cons, hfour hcode]
    omega
  | halves hhigh hlow hm hn =>
    rw [List.length_cons, List.length_append, hfour hhigh]
    omega
  | _ => decide

theorem IsQuoted.length_encode_le (h : IsQuoted text cs) :
    (Utf8.encode cs).length ≤ (Utf8.encode text).length := by
  induction h with
  | nil => exact Nat.le_refl _
  | plain hquote hslash hcontrol _ ih =>
    rw [length_encode_cons, length_encode_cons]
    omega
  | @escape code c text cs hcode _ ih =>
    have hsize := hcode.utf8Size_le
    have hlength := length_le_length_encode code
    rw [length_encode_cons, length_encode_cons, Utf8.encode_append, List.length_append]
    omega

theorem IsToken.length_encode_le {s : String} (h : IsToken text (.string s)) :
    (Utf8.ofString s).length ≤ (Utf8.encode text).length := by
  cases h with
  | string hquoted =>
    have hlength := hquoted.length_encode_le
    rw [Utf8.ofString, String.toList_ofList, length_encode_cons, Utf8.encode_append,
      List.length_append]
    omega

theorem length_encode_tokens? {ts : List Token} (h : tokens? cs = some ts) : ts.length ≤ cs.length ∧
    ∀ s, .string s ∈ ts → (Utf8.ofString s).length ≤ (Utf8.encode cs).length := by
  induction ts generalizing cs with
  | nil => exact ⟨Nat.zero_le _, nofun⟩
  | cons t ts ih =>
    obtain ⟨blank, token, rest, -, htoken, rfl, hrest⟩ := isToken_of_tokens? h
    obtain ⟨hlength, hstrings⟩ := ih hrest
    obtain ⟨c, token', rfl, -⟩ := exists_cons_of_isToken htoken
    simp only [List.length_append, List.length_cons, Utf8.encode_append]
    refine ⟨by omega, fun s hs => ?_⟩
    rcases List.mem_cons.mp hs with rfl | hs
    · have hle := htoken.length_encode_le
      omega
    · have hle := hstrings s hs
      omega

end

end Json

/-! ### Lists of methods -/

namespace MethodList

open Json

theorem length_le_length_itemTokens (ms : List Method) :
    ms.length ≤ (itemTokens (ms.map fun m => .string m.canonical)).length := by
  induction ms with
  | nil => exact Nat.le_refl 0
  | cons m ms ih =>
    rw [List.map_cons, itemTokens, List.length_cons, List.length_cons, List.length_append]
    omega

theorem string_mem_itemTokens {ms : List Method} {m : Method} (h : m ∈ ms) :
    .string m.canonical ∈ itemTokens (ms.map fun m => .string m.canonical) := by
  induction ms with
  | nil => cases h
  | cons n ms ih =>
    rw [List.map_cons, itemTokens]
    rcases List.mem_cons.mp h with rfl | hm
    · simp [tokens]
    · exact List.mem_cons_of_mem _ (List.mem_append_right _ (ih hm))

theorem tokens_toJson (m : Method) (ms : List Method) :
    (toJson (m :: ms)).tokens = .openArray :: .string m.canonical ::
      (itemTokens (ms.map fun m => .string m.canonical) ++ [.closeArray]) := by
  simp [toJson, tokens]

/-- The list that a file holds is no longer than the file, and no name in it is. -/
theorem keepsTests_of_decode {bs : Bytes} {ms : List Method} (h : decode bs = .ok ms)
    (hbs : bs.length < wordCount) : KeepsTests ms := by
  obtain ⟨hne, hconforms, hjson⟩ := decode_eq_ok_iff.mp h
  obtain ⟨cs, rfl, hdocument⟩ := ofBytes?_eq_some_iff.mp hjson
  obtain ⟨htokens, -⟩ := parse?_eq_some_iff_tokens?.mp (parse?_eq_some_iff.mpr hdocument)
  obtain ⟨hlength, hstrings⟩ := length_encode_tokens? htokens
  have hcount := length_le_length_encode cs
  cases ms with
  | nil => exact absurd rfl hne
  | cons m ms =>
    have hitems := length_le_length_itemTokens ms
    rw [tokens_toJson] at hlength hstrings
    simp only [List.length_cons, List.length_append, List.length_nil] at hlength
    refine ⟨?_, fun n hn => ⟨hconforms n hn, ?_⟩⟩
    · rw [List.length_cons]
      omega
    · have hmem : Token.string n.canonical ∈ Token.openArray :: .string m.canonical ::
          (itemTokens (ms.map fun m => .string m.canonical) ++ [.closeArray]) := by
        rcases List.mem_cons.mp hn with rfl | hn
        · simp
        · simp [string_mem_itemTokens hn]
      exact (hstrings _ hmem).trans_lt hbs

end MethodList

end CallDepth
