import CallDepth.Json.Token

/-!
# The grammar of tokens

Which texts are tokens of JSON and what they stand for, told as rules. Taking a token off the front of
a text follows them: what is taken is a token by the rules, and a token is taken whole unless it is a
number and what follows it would go on with it.
-/

namespace CallDepth.Json

/-! ### Strings -/

/-- Whether a text is a number of four digits to the base 16. -/
inductive IsHex4 : List Char → Nat → Prop where
  | mk {a b c d : Char} {w x y z : Nat} (ha : hexValue? a = some w) (hb : hexValue? b = some x)
      (hc : hexValue? c = some y) (hd : hexValue? d = some z) :
      IsHex4 [a, b, c, d] (((w * 16 + x) * 16 + y) * 16 + z)

/-- Whether a text stands for a character after a backslash. -/
inductive IsEscape : List Char → Char → Prop where
  | quote : IsEscape ['"'] '"'
  | backslash : IsEscape ['\\'] '\\'
  | solidus : IsEscape ['/'] '/'
  | backspace : IsEscape ['b'] '\x08'
  | formFeed : IsEscape ['f'] '\x0c'
  | lineFeed : IsEscape ['n'] '\n'
  | carriageReturn : IsEscape ['r'] '\r'
  | tab : IsEscape ['t'] '\t'
  | code {code : List Char} {n : Nat} (h : IsHex4 code n)
      (hn : ¬ (0xD800 ≤ n ∧ n ≤ 0xDFFF)) : IsEscape ('u' :: code) (Char.ofNat n)
  /-- A character that is written as two halves. -/
  | halves {high low : List Char} {m n : Nat} (hhigh : IsHex4 high m) (hlow : IsHex4 low n)
      (hm : 0xD800 ≤ m ∧ m ≤ 0xDBFF) (hn : 0xDC00 ≤ n ∧ n ≤ 0xDFFF) :
      IsEscape ('u' :: (high ++ '\\' :: 'u' :: low))
        (Char.ofNat (0x10000 + (m - 0xD800) * 0x400 + (n - 0xDC00)))

/-- Whether a text between quotes stands for characters. -/
inductive IsQuoted : List Char → List Char → Prop where
  | nil : IsQuoted [] []
  | plain {c : Char} {text cs : List Char} (hquote : c ≠ '"') (hslash : c ≠ '\\')
      (hcontrol : ¬ c.toNat < 0x20) (h : IsQuoted text cs) : IsQuoted (c :: text) (c :: cs)
  | escape {code : List Char} {c : Char} {text cs : List Char} (hcode : IsEscape code c)
      (h : IsQuoted text cs) : IsQuoted ('\\' :: (code ++ text)) (c :: cs)

/-! ### Numbers -/

def IsDigits (ds : List Char) : Prop := ds ≠ [] ∧ ∀ c ∈ ds, isDigit c = true

/-- Whether a text is whole digits: a zero alone, or digits that start with another. -/
def IsWhole (ds : List Char) : Prop := IsDigits ds ∧ (ds.head? = some '0' → ds = ['0'])

inductive IsFraction : List Char → Option (List Char) → Prop where
  | absent : IsFraction [] none
  | digits {ds : List Char} (h : IsDigits ds) : IsFraction ('.' :: ds) (some ds)

inductive IsExponentSign : List Char → Bool → Prop where
  | absent : IsExponentSign [] false
  | plus : IsExponentSign ['+'] false
  | minus : IsExponentSign ['-'] true

inductive IsExponent : List Char → Option Exponent → Prop where
  | absent : IsExponent [] none
  | digits {mark : Char} {sign ds : List Char} {negative : Bool} (hmark : mark = 'e' ∨ mark = 'E')
      (hsign : IsExponentSign sign negative) (hds : IsDigits ds) :
      IsExponent (mark :: (sign ++ ds)) (some ⟨negative, ds⟩)

inductive IsSign : List Char → Bool → Prop where
  | absent : IsSign [] false
  | minus : IsSign ['-'] true

inductive IsNumber : List Char → NumberParts → Prop where
  | mk {sign whole fraction exponent : List Char} {negative : Bool} {places : Option (List Char)}
      {power : Option Exponent} (hsign : IsSign sign negative) (hwhole : IsWhole whole)
      (hfraction : IsFraction fraction places) (hexponent : IsExponent exponent power) :
      IsNumber (sign ++ (whole ++ (fraction ++ exponent))) ⟨negative, whole, places, power⟩

/-! ### Tokens -/

inductive IsToken : List Char → Token → Prop where
  | openArray : IsToken ['['] .openArray
  | closeArray : IsToken [']'] .closeArray
  | openObject : IsToken ['{'] .openObject
  | closeObject : IsToken ['}'] .closeObject
  | comma : IsToken [','] .comma
  | colon : IsToken [':'] .colon
  | null : IsToken ['n', 'u', 'l', 'l'] .null
  | true : IsToken ['t', 'r', 'u', 'e'] (.bool true)
  | false : IsToken ['f', 'a', 'l', 's', 'e'] (.bool false)
  /-- A number is a token if it is not out of range. -/
  | number {text : List Char} {parts : NumberParts} {n : Number} (h : IsNumber text parts)
      (hn : parts.value? = some n) : IsToken text (.number n)
  | string {text cs : List Char} (h : IsQuoted text cs) :
      IsToken ('"' :: (text ++ ['"'])) (.string (String.ofList cs))

/-! ### Taking strings -/

section

variable {cs code rest : List Char} {c : Char} {n : Nat}

theorem takeHex4?_append (h : IsHex4 code n) (rest : List Char) :
    takeHex4? (code ++ rest) = some (n, rest) := by
  cases h with
  | mk ha hb hc hd =>
    simp only [List.cons_append, List.nil_append, takeHex4?, ha, hb, hc, hd, bind, Option.bind]

theorem isHex4_of_takeHex4? (h : takeHex4? cs = some (n, rest)) :
    ∃ code, IsHex4 code n ∧ cs = code ++ rest := by
  unfold takeHex4? at h
  split at h
  · simp only [Option.bind_eq_bind, Option.bind_eq_some_iff] at h
    obtain ⟨w, ha, x, hb, y, hc, z, hd, heq⟩ := h
    cases heq
    exact ⟨_, .mk ha hb hc hd, rfl⟩
  · cases h

theorem takeLowHalf?_append (h : IsHex4 code n) (hlow : 0xDC00 ≤ n ∧ n ≤ 0xDFFF)
    (rest : List Char) : takeLowHalf? ('\\' :: 'u' :: (code ++ rest)) = some (n, rest) := by
  simp only [takeLowHalf?, takeHex4?_append h, bind, Option.bind, if_pos hlow]

theorem isHex4_of_takeLowHalf? (h : takeLowHalf? cs = some (n, rest)) :
    ∃ code, IsHex4 code n ∧ (0xDC00 ≤ n ∧ n ≤ 0xDFFF) ∧ cs = '\\' :: 'u' :: (code ++ rest) := by
  unfold takeLowHalf? at h
  split at h
  · simp only [Option.bind_eq_bind, Option.bind_eq_some_iff] at h
    obtain ⟨⟨low, after⟩, htake, h⟩ := h
    obtain ⟨code, hcode, rfl⟩ := isHex4_of_takeHex4? htake
    split at h
    · rename_i hlow
      cases h
      exact ⟨code, hcode, hlow, rfl⟩
    · cases h
  · cases h

theorem takeCode?_append (h : IsEscape ('u' :: code) c) (rest : List Char) :
    takeCode? (code ++ rest) = some (c, rest) := by
  cases h with
  | code hcode hn =>
    simp only [takeCode?, takeHex4?_append hcode, bind, Option.bind]
    rw [if_neg (by omega), if_neg (by omega)]
  | halves hhigh hlow hm hn =>
    simp only [List.append_assoc, List.cons_append, takeCode?, takeHex4?_append hhigh,
      takeLowHalf?_append hlow hn, bind, Option.bind, if_pos hm]

theorem isEscape_of_takeCode? (h : takeCode? cs = some (c, rest)) :
    ∃ code, IsEscape ('u' :: code) c ∧ cs = code ++ rest := by
  simp only [takeCode?, Option.bind_eq_bind, Option.bind_eq_some_iff] at h
  obtain ⟨⟨first, after⟩, htake, h⟩ := h
  obtain ⟨code, hcode, rfl⟩ := isHex4_of_takeHex4? htake
  split at h
  · rename_i hhigh
    simp only [Option.bind_eq_some_iff] at h
    obtain ⟨⟨low, after'⟩, htake', heq⟩ := h
    obtain ⟨code', hcode', hlow, rfl⟩ := isHex4_of_takeLowHalf? htake'
    obtain ⟨rfl, rfl⟩ := Prod.mk.inj (Option.some.inj heq)
    exact ⟨_, .halves hcode hcode' hhigh hlow, by simp⟩
  · rename_i hhigh
    split at h
    · cases h
    · rename_i hlow
      cases h
      exact ⟨code, .code hcode (by omega), rfl⟩

theorem takeEscape?_append (h : IsEscape code c) (rest : List Char) :
    takeEscape? (code ++ rest) = some (c, rest) := by
  cases h with
  | code hcode hn => exact takeCode?_append (.code hcode hn) rest
  | halves hhigh hlow hm hn => exact takeCode?_append (.halves hhigh hlow hm hn) rest
  | _ => rfl

theorem isEscape_of_takeEscape? (h : takeEscape? cs = some (c, rest)) :
    ∃ code, IsEscape code c ∧ cs = code ++ rest := by
  unfold takeEscape? at h
  split at h
  case h_9 =>
    obtain ⟨code, hcode, rfl⟩ := isEscape_of_takeCode? h
    exact ⟨_, hcode, rfl⟩
  case h_10 => cases h
  all_goals
    cases h
    exact ⟨[_], by constructor, rfl⟩

end

theorem takeStringFrom?_slash {rest rest' : List Char} {c : Char}
    (h : takeEscape? rest = some (c, rest')) (done : List Char) :
    takeStringFrom? done ('\\' :: rest) = takeStringFrom? (c :: done) rest' := by
  rw [takeStringFrom?, if_neg (by decide), if_pos rfl]
  split
  · rename_i hnone
    cases hnone.symm.trans h
  · rename_i hsome
    cases hsome.symm.trans h
    rfl

theorem takeStringFrom?_append {text cs : List Char} (h : IsQuoted text cs)
    (done rest : List Char) : takeStringFrom? done (text ++ '"' :: rest) =
      some (String.ofList (done.reverse ++ cs), rest) := by
  induction h generalizing done with
  | nil => rw [List.nil_append, takeStringFrom?, if_pos rfl, List.append_nil]
  | plain hquote hslash hcontrol _ ih =>
    rw [List.cons_append, takeStringFrom?, if_neg hquote, if_neg hslash, if_neg hcontrol, ih]
    simp
  | escape hcode _ ih =>
    rw [List.cons_append, List.append_assoc, takeStringFrom?_slash (takeEscape?_append hcode _), ih]
    simp

theorem isQuoted_of_takeStringFrom? {done cs rest : List Char} {s : String}
    (h : takeStringFrom? done cs = some (s, rest)) : ∃ text chars, IsQuoted text chars ∧
      cs = text ++ '"' :: rest ∧ s = String.ofList (done.reverse ++ chars) := by
  fun_induction takeStringFrom? done cs with
  | case1 => cases h
  | case2 done rest' =>
    cases h
    exact ⟨[], [], .nil, rfl, by rw [List.append_nil]⟩
  | case3 => cases h
  | case4 done rest' c after htake hquote ih =>
    obtain ⟨code, hcode, rfl⟩ := isEscape_of_takeEscape? htake
    obtain ⟨text, chars, htext, rfl, rfl⟩ := ih h
    exact ⟨_, _, .escape hcode htext, by simp, by simp⟩
  | case5 => cases h
  | case6 done c rest' hquote hslash hcontrol ih =>
    obtain ⟨text, chars, htext, rfl, rfl⟩ := ih h
    exact ⟨_, _, .plain hquote hslash hcontrol htext, rfl, by simp⟩

/-! ### Taking numbers -/

section

variable {cs ds text rest : List Char}

/-- Whether a text does not go on with a number. -/
def EndsNumber (cs : List Char) : Prop :=
  ∀ c ∈ cs.head?, isDigit c = false ∧ c ≠ '.' ∧ c ≠ 'e' ∧ c ≠ 'E'

theorem takeDigits?_append (h : IsDigits ds) (hrest : ∀ c ∈ rest.head?, isDigit c = false) :
    takeDigits? (ds ++ rest) = some (ds, rest) := by
  have htake : rest.takeWhile isDigit = [] := by
    cases rest with
    | nil => rfl
    | cons c rest => simp [hrest c rfl]
  have hdrop : rest.dropWhile isDigit = rest := by
    cases rest with
    | nil => rfl
    | cons c rest => simp [hrest c rfl]
  rw [takeDigits?, List.takeWhile_append_of_pos h.2, htake, List.append_nil,
    List.dropWhile_append_of_pos h.2, hdrop]
  cases ds with
  | nil => exact absurd rfl h.1
  | cons d ds => rfl

theorem isDigits_of_takeDigits? (h : takeDigits? cs = some (ds, rest)) :
    IsDigits ds ∧ cs = ds ++ rest := by
  unfold takeDigits? at h
  split at h
  · cases h
  · rename_i d ds' htake
    cases h
    refine ⟨⟨List.cons_ne_nil _ _, fun c hc => ?_⟩, ?_⟩
    · rw [← htake] at hc
      exact List.all_eq_true.mp List.all_takeWhile c hc
    · rw [← htake, List.takeWhile_append_dropWhile]

theorem takeWhole?_append (h : IsWhole ds) (hrest : ∀ c ∈ rest.head?, isDigit c = false) :
    takeWhole? (ds ++ rest) = some (ds, rest) := by
  obtain ⟨hds, hzero⟩ := h
  have htake := takeDigits?_append hds hrest
  obtain ⟨d, ds', rfl⟩ := List.exists_cons_of_ne_nil hds.1
  rw [List.cons_append] at htake ⊢
  unfold takeWhole?
  split
  · rename_i heq
    cases heq
    cases hzero rfl
    rfl
  · exact htake

theorem isWhole_of_takeWhole? (h : takeWhole? cs = some (ds, rest)) :
    IsWhole ds ∧ cs = ds ++ rest := by
  unfold takeWhole? at h
  split at h
  · cases h
    exact ⟨⟨⟨List.cons_ne_nil _ _, List.forall_mem_singleton.mpr rfl⟩, fun _ => rfl⟩, rfl⟩
  · rename_i hne
    obtain ⟨hds, rfl⟩ := isDigits_of_takeDigits? h
    refine ⟨⟨hds, fun hhead => ?_⟩, rfl⟩
    obtain ⟨ds', rfl⟩ := List.head?_eq_some_iff.mp hhead
    exact absurd rfl (hne _)

theorem takeFraction?_append {places : Option (List Char)} (h : IsFraction text places)
    (hrest : ∀ c ∈ rest.head?, isDigit c = false ∧ c ≠ '.') :
    takeFraction? (text ++ rest) = some (places, rest) := by
  cases h with
  | absent =>
    rw [List.nil_append]
    unfold takeFraction?
    split
    · exact absurd rfl (hrest '.' rfl).2
    · rfl
  | digits h =>
    rw [List.cons_append, takeFraction?, takeDigits?_append h fun c hc => (hrest c hc).1]
    rfl

theorem isFraction_of_takeFraction? {places : Option (List Char)}
    (h : takeFraction? cs = some (places, rest)) :
    ∃ text, IsFraction text places ∧ cs = text ++ rest := by
  unfold takeFraction? at h
  split at h
  · obtain ⟨⟨ds, after⟩, htake, heq⟩ := Option.map_eq_some_iff.mp h
    cases heq
    obtain ⟨hds, rfl⟩ := isDigits_of_takeDigits? htake
    exact ⟨_, .digits hds, rfl⟩
  · cases h
    exact ⟨[], .absent, rfl⟩

theorem takeExponentSign_append {sign : List Char} {negative : Bool}
    (h : IsExponentSign sign negative) (hds : IsDigits ds) (rest : List Char) :
    takeExponentSign (sign ++ (ds ++ rest)) = (negative, ds ++ rest) := by
  cases h with
  | absent =>
    obtain ⟨d, ds', rfl⟩ := List.exists_cons_of_ne_nil hds.1
    have hd := hds.2 d (List.mem_cons_self ..)
    rw [List.nil_append, List.cons_append]
    unfold takeExponentSign
    split
    · rename_i heq
      cases heq
      cases hd
    · rename_i heq
      cases heq
      cases hd
    · rfl
  | plus => rfl
  | minus => rfl

theorem isExponentSign_takeExponentSign (cs : List Char) :
    ∃ sign, IsExponentSign sign (takeExponentSign cs).1 ∧ cs = sign ++ (takeExponentSign cs).2 := by
  unfold takeExponentSign
  split
  · exact ⟨_, .minus, rfl⟩
  · exact ⟨_, .plus, rfl⟩
  · exact ⟨_, .absent, rfl⟩

theorem takeExponent?_append {power : Option Exponent} (h : IsExponent text power)
    (hrest : EndsNumber rest) : takeExponent? (text ++ rest) = some (power, rest) := by
  cases h with
  | absent =>
    cases rest with
    | nil => rfl
    | cons c rest =>
      have hc := (hrest c rfl).2.2
      rw [List.nil_append, takeExponent?, if_neg (not_or.mpr hc)]
  | digits hmark hsign hds =>
    rw [List.cons_append, List.append_assoc, takeExponent?, if_pos hmark,
      takeExponentSign_append hsign hds]
    dsimp only
    rw [takeDigits?_append hds fun c hc => (hrest c hc).1]
    rfl

theorem isExponent_of_takeExponent? {power : Option Exponent}
    (h : takeExponent? cs = some (power, rest)) :
    ∃ text, IsExponent text power ∧ cs = text ++ rest := by
  unfold takeExponent? at h
  split at h
  · rename_i c tail
    split at h
    · rename_i hmark
      obtain ⟨⟨ds, after⟩, htake, heq⟩ := Option.map_eq_some_iff.mp h
      cases heq
      obtain ⟨hds, hdigits⟩ := isDigits_of_takeDigits? htake
      obtain ⟨sign, hsign, htail⟩ := isExponentSign_takeExponentSign tail
      refine ⟨_, .digits hmark hsign hds, ?_⟩
      rw [List.cons_append, List.append_assoc, ← hdigits, ← htail]
    · cases h
      exact ⟨[], .absent, rfl⟩
  · cases h
    exact ⟨[], .absent, rfl⟩

theorem takeSign_append {sign : List Char} {negative : Bool} (h : IsSign sign negative)
    (hds : IsDigits ds) (rest : List Char) :
    takeSign (sign ++ (ds ++ rest)) = (negative, ds ++ rest) := by
  cases h with
  | absent =>
    obtain ⟨d, ds', rfl⟩ := List.exists_cons_of_ne_nil hds.1
    have hd := hds.2 d (List.mem_cons_self ..)
    rw [List.nil_append, List.cons_append]
    unfold takeSign
    split
    · rename_i heq
      cases heq
      cases hd
    · rfl
  | minus => rfl

theorem isSign_takeSign (cs : List Char) :
    ∃ sign, IsSign sign (takeSign cs).1 ∧ cs = sign ++ (takeSign cs).2 := by
  unfold takeSign
  split
  · exact ⟨_, .minus, rfl⟩
  · exact ⟨_, .absent, rfl⟩

theorem takeNumber?_append {parts : NumberParts} (h : IsNumber text parts)
    (hrest : EndsNumber rest) : takeNumber? (text ++ rest) = some (parts, rest) := by
  cases h with
  | @mk sign whole fraction exponent negative places power hsign hwhole hfraction hexponent =>
    have hpower : ∀ c ∈ (exponent ++ rest).head?, isDigit c = false ∧ c ≠ '.' := by
      intro c hc
      cases hexponent with
      | absent => exact ⟨(hrest c hc).1, (hrest c hc).2.1⟩
      | digits hmark _ _ =>
        cases hc
        rcases hmark with rfl | rfl <;> decide
    have hplaces : ∀ c ∈ (fraction ++ (exponent ++ rest)).head?, isDigit c = false := by
      intro c hc
      cases hfraction with
      | absent => exact (hpower c hc).1
      | digits _ =>
        cases hc
        rfl
    simp only [List.append_assoc, takeNumber?, takeSign_append hsign hwhole.1,
      takeWhole?_append hwhole hplaces, takeFraction?_append hfraction hpower,
      takeExponent?_append hexponent hrest, bind, Option.bind]

theorem isNumber_of_takeNumber? {parts : NumberParts} (h : takeNumber? cs = some (parts, rest)) :
    ∃ text, IsNumber text parts ∧ cs = text ++ rest := by
  simp only [takeNumber?, Option.bind_eq_bind, Option.bind_eq_some_iff] at h
  obtain ⟨⟨whole, cs₁⟩, htake₁, ⟨places, cs₂⟩, htake₂, ⟨power, cs₃⟩, htake₃, heq⟩ := h
  cases heq
  obtain ⟨sign, hsign, hcs⟩ := isSign_takeSign cs
  obtain ⟨hwhole, hcs₁⟩ := isWhole_of_takeWhole? htake₁
  obtain ⟨fraction, hfraction, hcs₂⟩ := isFraction_of_takeFraction? htake₂
  obtain ⟨exponent, hexponent, hcs₃⟩ := isExponent_of_takeExponent? htake₃
  dsimp only at hcs₁ hcs₂ hcs₃
  refine ⟨_, .mk hsign hwhole hfraction hexponent, ?_⟩
  rw [hcs, hcs₁, hcs₂, hcs₃]
  simp only [List.append_assoc]

end

/-! ### Taking tokens -/

/-- Whether a token ends where it does whatever follows, as all but numbers do. -/
def Token.Closed : Token → Prop
  | .number _ => False
  | _ => True

theorem exists_cons_of_isNumber {text : List Char} {parts : NumberParts} (h : IsNumber text parts) :
    ∃ c cs, text = c :: cs ∧ (c = '-' ∨ isDigit c = true) := by
  cases h with
  | mk hsign hwhole _ _ =>
    cases hsign with
    | minus => exact ⟨_, _, rfl, Or.inl rfl⟩
    | absent =>
      obtain ⟨d, ds, rfl⟩ := List.exists_cons_of_ne_nil hwhole.1.1
      exact ⟨_, _, rfl, Or.inr (hwhole.1.2 d (List.mem_cons_self ..))⟩

theorem takeToken?_of_number {c : Char} (hc : c = '-' ∨ isDigit c = true) (cs : List Char) :
    takeToken? (c :: cs) = (do
      let (parts, rest) ← takeNumber? (c :: cs)
      let n ← parts.value?
      some (.number n, rest)) := by
  unfold takeToken?
  split
  case h_11 => rfl
  all_goals
    rename_i heq
    rw [(List.cons.inj heq).1] at hc
    exact absurd hc (by decide)

theorem takeToken?_append {text rest : List Char} {t : Token} (h : IsToken text t)
    (hrest : t.Closed ∨ EndsNumber rest) : takeToken? (text ++ rest) = some (t, rest) := by
  cases h with
  | number hnumber hvalue =>
    have htake := takeNumber?_append hnumber (hrest.resolve_left id)
    obtain ⟨c, cs, rfl, hc⟩ := exists_cons_of_isNumber hnumber
    rw [List.cons_append] at htake ⊢
    simp only [takeToken?_of_number hc, htake, bind, Option.bind, hvalue]
  | string hquoted =>
    have htake := takeStringFrom?_append hquoted [] rest
    simp only [List.cons_append, List.append_assoc, List.nil_append, takeToken?, htake,
      Option.map_some, List.reverse_nil]
  | _ => rfl

theorem isToken_of_takeToken? {cs rest : List Char} {t : Token}
    (h : takeToken? cs = some (t, rest)) : ∃ text, IsToken text t ∧ cs = text ++ rest := by
  unfold takeToken? at h
  split at h
  case h_10 =>
    obtain ⟨⟨s, after⟩, htake, heq⟩ := Option.map_eq_some_iff.mp h
    cases heq
    obtain ⟨text, chars, hquoted, rfl, rfl⟩ := isQuoted_of_takeStringFrom? htake
    exact ⟨_, .string hquoted, by simp⟩
  case h_11 =>
    simp only [Option.bind_eq_bind, Option.bind_eq_some_iff] at h
    obtain ⟨⟨parts, after⟩, htake, n, hvalue, heq⟩ := h
    cases heq
    obtain ⟨text, hnumber, rfl⟩ := isNumber_of_takeNumber? htake
    exact ⟨text, .number hnumber hvalue, rfl⟩
  all_goals
    cases h
    exact ⟨_, by constructor, rfl⟩

/-! ### Taking all tokens -/

def IsBlank (cs : List Char) : Prop := ∀ c ∈ cs, isSpace c = true

theorem isBlank_nil : IsBlank [] := nofun

theorem exists_cons_of_isToken {text : List Char} {t : Token} (h : IsToken text t) :
    ∃ c cs, text = c :: cs ∧ isSpace c = false := by
  cases h with
  | number hnumber _ =>
    obtain ⟨c, cs, rfl, hc⟩ := exists_cons_of_isNumber hnumber
    refine ⟨c, cs, rfl, ?_⟩
    rw [← Bool.not_eq_true]
    intro hspace
    simp only [isSpace, Bool.or_eq_true, decide_eq_true_eq] at hspace
    rcases hspace with ((rfl | rfl) | rfl) | rfl <;> exact absurd hc (by decide)
  | _ => exact ⟨_, _, rfl, by decide⟩

theorem tokensFrom?_cons {c : Char} {cs rest : List Char} {t : Token} (hc : isSpace c = false)
    (h : takeToken? (c :: cs) = some (t, rest)) (done : List Token) :
    tokensFrom? done (c :: cs) = tokensFrom? (t :: done) rest := by
  rw [tokensFrom?, if_neg (by simp [hc])]
  split
  · rename_i hnone
    cases hnone.symm.trans h
  · rename_i hsome
    cases hsome.symm.trans h
    rfl

/-- The tokens that are read do not depend on those that were read before. -/
theorem tokensFrom?_eq_map (done more : List Token) (cs : List Char) :
    tokensFrom? (done ++ more) cs = (tokensFrom? done cs).map (more.reverse ++ ·) := by
  fun_induction tokensFrom? done cs with
  | case1 done => simp [tokensFrom?]
  | case2 done c rest hspace ih => rw [tokensFrom?, if_pos hspace, ih]
  | case3 done c rest hspace hnone =>
    rw [tokensFrom?, if_neg hspace]
    split
    · rfl
    · rename_i hsome
      cases hnone.symm.trans hsome
  | case4 done c rest hspace t after htake ih =>
    rw [tokensFrom?_cons (Bool.not_eq_true _ ▸ hspace) htake, ← ih]
    rfl

theorem tokensFrom?_singleton (t : Token) (cs : List Char) :
    tokensFrom? [t] cs = (tokens? cs).map (t :: ·) :=
  tokensFrom?_eq_map [] [t] cs

section

variable {text rest : List Char}

theorem tokens?_blank (h : IsBlank text) (rest : List Char) :
    tokens? (text ++ rest) = tokens? rest := by
  induction text with
  | nil => rfl
  | cons c text ih =>
    obtain ⟨hc, htext⟩ := List.forall_mem_cons.mp h
    have hrest := ih htext
    rw [tokens?] at hrest ⊢
    rw [List.cons_append, tokensFrom?, if_pos hc, hrest]

theorem tokens?_append {t : Token} (h : IsToken text t) (hrest : t.Closed ∨ EndsNumber rest) :
    tokens? (text ++ rest) = (tokens? rest).map (t :: ·) := by
  have htake := takeToken?_append h hrest
  obtain ⟨c, cs, rfl, hc⟩ := exists_cons_of_isToken h
  rw [List.cons_append] at htake ⊢
  rw [tokens?, tokensFrom?_cons hc htake, tokensFrom?_singleton]

theorem tokens?_nil : tokens? [] = some [] := by
  rw [tokens?, tokensFrom?]
  rfl

theorem tokens?_nil_iff : tokens? text = some [] ↔ IsBlank text := by
  constructor
  · intro h
    induction text with
    | nil => exact nofun
    | cons c text ih =>
      rw [tokens?, tokensFrom?] at h
      split at h
      · rename_i hc
        exact List.forall_mem_cons.mpr ⟨hc, ih h⟩
      · split at h
        · cases h
        · rw [tokensFrom?_singleton] at h
          obtain ⟨ts, -, hts⟩ := Option.map_eq_some_iff.mp h
          cases hts
  · intro h
    have hblank := tokens?_blank h []
    rwa [List.append_nil, tokens?_nil] at hblank

theorem isToken_of_tokens? {t : Token} {ts : List Token} (h : tokens? text = some (t :: ts)) :
    ∃ blank token rest, IsBlank blank ∧ IsToken token t ∧ text = blank ++ (token ++ rest) ∧
      tokens? rest = some ts := by
  induction text with
  | nil =>
    rw [tokens?, tokensFrom?] at h
    cases h
  | cons c text ih =>
    rw [tokens?, tokensFrom?] at h
    split at h
    · rename_i hc
      obtain ⟨blank, token, rest, hblank, htoken, rfl, hrest⟩ := ih h
      exact ⟨c :: blank, token, rest, List.forall_mem_cons.mpr ⟨hc, hblank⟩, htoken, rfl, hrest⟩
    · split at h
      · cases h
      · rename_i next after htake
        obtain ⟨token, htoken, htext⟩ := isToken_of_takeToken? htake
        rw [tokensFrom?_singleton] at h
        obtain ⟨us, hafter, hus⟩ := Option.map_eq_some_iff.mp h
        cases hus
        exact ⟨[], token, after, isBlank_nil, htoken, htext, hafter⟩

end

end CallDepth.Json
