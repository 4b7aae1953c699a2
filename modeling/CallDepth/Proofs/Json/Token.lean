import Mathlib.Tactic.SplitIfs
import CallDepth.Json.Writer
import CallDepth.Proofs.Json.Grammar

/-!
# Texts of tokens

The text that each token is written as is that token by the rules, unless it is a number that is no
natural one of 64 bits.
-/

namespace CallDepth.Json

/-! ### Strings -/

theorem hexDigit_value {n : Nat} (h : n < 16) : hexValue? (hexDigit n) = some n := by
  have hall : ∀ n < 16, hexValue? (hexDigit n) = some n := by decide
  exact hall n h

theorem isEscape_code {c : Char} (h : c.toNat < 0x20) :
    IsEscape ['u', '0', '0', hexDigit (c.toNat / 16), hexDigit (c.toNat % 16)] c := by
  have hzero : hexValue? '0' = some 0 := by decide
  have hhigh := @hexDigit_value (c.toNat / 16) (by omega)
  have hlow := @hexDigit_value (c.toNat % 16) (by omega)
  have hvalue : ((0 * 16 + 0) * 16 + c.toNat / 16) * 16 + c.toNat % 16 = c.toNat := by omega
  have hcode := IsHex4.mk hzero hzero hhigh hlow
  rw [hvalue] at hcode
  have hescape := IsEscape.code hcode (by omega)
  rwa [Char.ofNat_toNat] at hescape

/-- A character is written as an escape that stands for it, or as itself. -/
theorem escapeChar_cases (c : Char) :
    (∃ code, escapeChar c = '\\' :: code ∧ IsEscape code c) ∨
      escapeChar c = [c] ∧ c ≠ '"' ∧ c ≠ '\\' ∧ ¬ c.toNat < 0x20 := by
  by_cases hcontrol : c.toNat < 0x20
  · refine Or.inl ?_
    have hquote : c ≠ '"' := by
      rintro rfl
      exact absurd hcontrol (by decide)
    have hslash : c ≠ '\\' := by
      rintro rfl
      exact absurd hcontrol (by decide)
    rw [escapeChar, if_neg hquote, if_neg hslash]
    split_ifs with hb ht hn hf hr
    · exact ⟨['b'], rfl, hb ▸ .backspace⟩
    · exact ⟨['t'], rfl, ht ▸ .tab⟩
    · exact ⟨['n'], rfl, hn ▸ .lineFeed⟩
    · exact ⟨['f'], rfl, hf ▸ .formFeed⟩
    · exact ⟨['r'], rfl, hr ▸ .carriageReturn⟩
    · exact ⟨_, rfl, isEscape_code hcontrol⟩
  · have hplain : ∀ d : Char, d.toNat < 0x20 → c ≠ d := by
      rintro d hd rfl
      exact hcontrol hd
    unfold escapeChar
    rw [if_neg (hplain '\x08' (by decide)), if_neg (hplain '\t' (by decide)),
      if_neg (hplain '\n' (by decide)), if_neg (hplain '\x0c' (by decide)),
      if_neg (hplain '\r' (by decide)), if_neg hcontrol]
    split_ifs with hquote hslash
    · exact Or.inl ⟨['"'], rfl, hquote ▸ .quote⟩
    · exact Or.inl ⟨['\\'], rfl, hslash ▸ .backslash⟩
    · exact Or.inr ⟨rfl, hquote, hslash, hcontrol⟩

theorem isQuoted_escape (cs : List Char) : IsQuoted (escape cs) cs := by
  induction cs with
  | nil => exact .nil
  | cons c cs ih =>
    rw [escape_cons]
    rcases escapeChar_cases c with ⟨code, hescape, hcode⟩ | ⟨hescape, hquote, hslash, hcontrol⟩
    · rw [hescape, List.cons_append]
      exact .escape hcode ih
    · rw [hescape]
      exact .plain hquote hslash hcontrol ih

theorem isToken_quote (s : String) : IsToken (quote s) (.string s) := by
  have hquoted := IsToken.string (isQuoted_escape s.toList)
  rwa [String.ofList_toList] at hquoted

/-! ### Numbers -/

theorem isDigit_digitChar {d : Nat} (h : d < 10) : isDigit d.digitChar = true := by
  have hall : ∀ d < 10, isDigit d.digitChar = true := by decide
  exact hall d h

theorem digitValue_digitChar {d : Nat} (h : d < 10) : digitValue d.digitChar = d := by
  have hall : ∀ d < 10, digitValue d.digitChar = d := by decide
  exact hall d h

theorem toDigits_of_lt {n : Nat} (h : n < 10) : Nat.toDigits 10 n = [n.digitChar] :=
  Nat.toDigits_of_lt_base h

theorem toDigits_of_le {n : Nat} (h : 10 ≤ n) :
    Nat.toDigits 10 n = Nat.toDigits 10 (n / 10) ++ [(n % 10).digitChar] :=
  Nat.toDigits_of_base_le (by decide) h

theorem isDigit_of_mem_toDigits (n : Nat) : ∀ c ∈ Nat.toDigits 10 n, isDigit c = true := by
  induction n using Nat.strongRecOn with
  | ind n ih =>
    intro c hc
    by_cases hn : n < 10
    · rw [toDigits_of_lt hn, List.mem_singleton] at hc
      rw [hc]
      exact isDigit_digitChar hn
    · rw [toDigits_of_le (by omega), List.mem_append, List.mem_singleton] at hc
      rcases hc with hc | rfl
      · exact ih (n / 10) (by omega) c hc
      · exact isDigit_digitChar (by omega)

/-- Only zero starts with a zero. -/
theorem head_toDigits {n : Nat} (hn : n ≠ 0) :
    ∃ d ds, Nat.toDigits 10 n = d :: ds ∧ d ≠ '0' := by
  induction n using Nat.strongRecOn with
  | ind n ih =>
    by_cases hlt : n < 10
    · have hall : ∀ n < 10, n ≠ 0 → n.digitChar ≠ '0' := by decide
      exact ⟨_, [], toDigits_of_lt hlt, hall n hlt hn⟩
    · obtain ⟨d, ds, hdigits, hd⟩ := ih (n / 10) (by omega) (by omega)
      exact ⟨d, ds ++ [(n % 10).digitChar], by rw [toDigits_of_le (by omega), hdigits]; rfl, hd⟩

theorem isWhole_toDigits (n : Nat) : IsWhole (Nat.toDigits 10 n) := by
  refine ⟨⟨Nat.toDigits_ne_nil, isDigit_of_mem_toDigits n⟩, fun hhead => ?_⟩
  by_cases hn : n = 0
  · rw [hn]
    rfl
  · obtain ⟨d, ds, hdigits, hd⟩ := head_toDigits hn
    rw [hdigits] at hhead
    exact absurd (Option.some.inj hhead) hd

theorem isNumber_toDigits (n : Nat) :
    IsNumber (Nat.toDigits 10 n) ⟨false, Nat.toDigits 10 n, none, none⟩ := by
  have hnumber := IsNumber.mk .absent (isWhole_toDigits n) .absent .absent
  rwa [List.nil_append, List.append_nil, List.append_nil] at hnumber

theorem extend_append {significand next : Nat} {ds : List Char}
    (h : extend significand ds = (next, [])) (es : List Char) :
    extend significand (ds ++ es) = extend next es := by
  induction ds generalizing significand with
  | nil =>
    cases h
    rfl
  | cons d ds ih =>
    rw [extend] at h
    rw [List.cons_append, extend]
    split at h
    · rename_i hle
      rw [if_pos hle]
      exact ih h
    · cases h

theorem extend_toDigits {n : Nat} (hn : n ≤ maxSignificand) :
    extend 0 (Nat.toDigits 10 n) = (n, []) := by
  induction n using Nat.strongRecOn with
  | ind n ih =>
    by_cases hlt : n < 10
    · rw [toDigits_of_lt hlt]
      simp only [extend, digitValue_digitChar hlt, Nat.mul_zero, Nat.zero_add, if_pos hn]
    · have hvalue : 10 * (n / 10) + n % 10 = n := by omega
      rw [toDigits_of_le (by omega), extend_append (ih (n / 10) (by omega) (by omega))]
      simp only [extend, digitValue_digitChar (Nat.mod_lt n (by decide)), hvalue, if_pos hn]

theorem value?_toDigits {n : Nat} (hn : n ≤ maxSignificand) :
    NumberParts.value? ⟨false, Nat.toDigits 10 n, none, none⟩ = some (.natural n) := by
  simp [NumberParts.value?, extend_toDigits hn, Number.ofWhole]

/-! ### Tokens -/

namespace Token

/-- Whether a token is no number, or a natural number that is kept as it is. -/
def Plain : Token → Prop
  | number n => ∃ value, value ≤ maxSignificand ∧ n = .natural value
  | _ => True

end Token

theorem isToken_natural {n : Nat} (hn : n ≤ maxSignificand) :
    IsToken (Number.natural n).text.toList (.number (.natural n)) := by
  have htext : (Number.natural n).text.toList = Nat.toDigits 10 n := Nat.toList_repr
  rw [htext]
  exact .number (isNumber_toDigits n) (value?_toDigits hn)

end CallDepth.Json
