import CallDepth.Proofs.Json.Building
import CallDepth.Proofs.Json.Grammar
import CallDepth.Proofs.Text.Utf8

/-!
# The grammar of documents

Which texts are JSON documents and which values they denote, told as rules: a value is a token, or
items or members within brackets, with blanks before and after each of them. A text is read as a value
exactly if it denotes that value and the value is nested no deeper than can be read.
-/

namespace CallDepth.Json

open Text

mutual

/-- Whether a text is a value from its first character to its last. -/
inductive IsValue : List Char → Json → Prop where
  | null {text : List Char} (h : IsToken text .null) : IsValue text .null
  | bool {text : List Char} {b : Bool} (h : IsToken text (.bool b)) : IsValue text (.bool b)
  | number {text : List Char} {n : Number} (h : IsToken text (.number n)) : IsValue text (.number n)
  | string {text : List Char} {s : String} (h : IsToken text (.string s)) :
      IsValue text (.string s)
  | emptyArray {blank : List Char} (h : IsBlank blank) :
      IsValue ('[' :: (blank ++ [']'])) (.array [])
  | array {text : List Char} {items : List Json} (h : IsItems text items) :
      IsValue ('[' :: (text ++ [']'])) (.array items)
  | emptyObject {blank : List Char} (h : IsBlank blank) :
      IsValue ('\x7b' :: (blank ++ ['\x7d'])) (.object [])
  | object {text : List Char} {members : List (String × Json)} (h : IsMembers text members) :
      IsValue ('\x7b' :: (text ++ ['\x7d'])) (.object members)

/-- Whether a text is a value with blanks before and after it. -/
inductive IsPadded : List Char → Json → Prop where
  | mk {before text after : List Char} {v : Json} (hbefore : IsBlank before) (h : IsValue text v)
      (hafter : IsBlank after) : IsPadded (before ++ (text ++ after)) v

/-- Whether a text is one or more values with commas between them. -/
inductive IsItems : List Char → List Json → Prop where
  | last {text : List Char} {item : Json} (h : IsPadded text item) : IsItems text [item]
  | cons {text rest : List Char} {item : Json} {items : List Json} (h : IsPadded text item)
      (hrest : IsItems rest items) : IsItems (text ++ ',' :: rest) (item :: items)

/-- Whether a text is a key and its value with a colon between them. -/
inductive IsMember : List Char → String × Json → Prop where
  | mk {before text after rest : List Char} {key : String} {value : Json} (hbefore : IsBlank before)
      (hkey : IsToken text (.string key)) (hafter : IsBlank after) (h : IsPadded rest value) :
      IsMember (before ++ (text ++ (after ++ ':' :: rest))) (key, value)

inductive IsMembers : List Char → List (String × Json) → Prop where
  | last {text : List Char} {member : String × Json} (h : IsMember text member) :
      IsMembers text [member]
  | cons {text rest : List Char} {member : String × Json} {members : List (String × Json)}
      (h : IsMember text member) (hrest : IsMembers rest members) :
      IsMembers (text ++ ',' :: rest) (member :: members)

end

/-- Whether a text is a document that denotes a value. -/
def IsDocument (text : List Char) (v : Json) : Prop := IsPadded text v ∧ v.depth ≤ maxDepth

/-! ### Tokens between brackets -/

/-- The tokens of items with the commas between them. -/
def listTokens : List Json → List Token
  | [] => []
  | item :: rest => item.tokens ++ itemTokens rest

def recordTokens : List (String × Json) → List Token
  | [] => []
  | member :: rest => .string member.1 :: .colon :: (member.2.tokens ++ memberTokens rest)

theorem tokens_array (items : List Json) :
    (array items).tokens = .openArray :: (listTokens items ++ [.closeArray]) := by
  cases items with
  | nil => rfl
  | cons item rest => rw [tokens, listTokens]

theorem tokens_object (members : List (String × Json)) :
    (object members).tokens = .openObject :: (recordTokens members ++ [.closeObject]) := by
  cases members with
  | nil => rfl
  | cons member rest => rw [tokens, recordTokens]; rfl

theorem itemTokens_eq_of_ne_nil {items : List Json} (h : items ≠ []) :
    itemTokens items = .comma :: listTokens items := by
  cases items with
  | nil => exact absurd rfl h
  | cons item rest => rw [itemTokens, listTokens]

theorem memberTokens_eq_of_ne_nil {members : List (String × Json)} (h : members ≠ []) :
    memberTokens members = .comma :: recordTokens members := by
  cases members with
  | nil => exact absurd rfl h
  | cons member rest => rw [memberTokens, recordTokens]

/-! ### Taking what follows the rules -/

theorem endsNumber_cons {c : Char} (hc : isDigit c = false ∧ c ≠ '.' ∧ c ≠ 'e' ∧ c ≠ 'E')
    (cs : List Char) : EndsNumber (c :: cs) := by
  intro d hd
  cases hd
  exact hc

theorem EndsNumber.blank {blank rest : List Char} (h : IsBlank blank) (hrest : EndsNumber rest) :
    EndsNumber (blank ++ rest) := by
  cases blank with
  | nil => exact hrest
  | cons c blank =>
    have hc := h c (List.mem_cons_self ..)
    simp only [isSpace, Bool.or_eq_true, decide_eq_true_eq] at hc
    rcases hc with ((rfl | rfl) | rfl) | rfl <;> exact endsNumber_cons (by decide) _

theorem tokens?_mark {c : Char} {t : Token} (h : IsToken [c] t) (ht : t.Closed)
    (rest : List Char) : tokens? (c :: rest) = (tokens? rest).map (t :: ·) :=
  tokens?_append h (Or.inl ht)

theorem IsItems.ne_nil {text : List Char} {items : List Json} (h : IsItems text items) :
    items ≠ [] := by
  cases h <;> exact List.cons_ne_nil _ _

theorem IsMembers.ne_nil {text : List Char} {members : List (String × Json)}
    (h : IsMembers text members) : members ≠ [] := by
  cases h <;> exact List.cons_ne_nil _ _

-- The recursion is on the derivations. What follows a number must not go on with it; within brackets
-- that is so, for a blank, a comma or a bracket follows.
mutual

theorem IsValue.tokens?_append {text : List Char} {v : Json} :
    IsValue text v → ∀ {rest : List Char}, ((∃ n, v = .number n) → EndsNumber rest) →
      tokens? (text ++ rest) = (tokens? rest).map (v.tokens ++ ·)
  | .null h, _, _ => Json.tokens?_append h (Or.inl trivial)
  | .bool h, _, _ => Json.tokens?_append h (Or.inl trivial)
  | .number h, _, hrest => Json.tokens?_append h (Or.inr (hrest ⟨_, rfl⟩))
  | .string h, _, _ => Json.tokens?_append h (Or.inl trivial)
  | .emptyArray h, rest, _ => by
    rw [List.cons_append, List.append_assoc, tokens?_mark .openArray trivial, tokens?_blank h,
      List.singleton_append, tokens?_mark .closeArray trivial, Option.map_map]
    rfl
  | .array h, rest, _ => by
    rw [List.cons_append, List.append_assoc, tokens?_mark .openArray trivial,
      List.singleton_append, h.tokens?_append, tokens_array, Option.map_map]
    simp [Function.comp_def]
  | .emptyObject h, rest, _ => by
    rw [List.cons_append, List.append_assoc, tokens?_mark .openObject trivial, tokens?_blank h,
      List.singleton_append, tokens?_mark .closeObject trivial, Option.map_map]
    rfl
  | .object h, rest, _ => by
    rw [List.cons_append, List.append_assoc, tokens?_mark .openObject trivial,
      List.singleton_append, h.tokens?_append, tokens_object, Option.map_map]
    simp [Function.comp_def]

theorem IsPadded.tokens?_append {text : List Char} {v : Json} :
    IsPadded text v → ∀ {rest : List Char}, EndsNumber rest →
      tokens? (text ++ rest) = (tokens? rest).map (v.tokens ++ ·)
  | .mk hbefore h hafter, rest, hrest => by
    rw [List.append_assoc, List.append_assoc, tokens?_blank hbefore,
      h.tokens?_append fun _ => hrest.blank hafter, tokens?_blank hafter]

theorem IsItems.tokens?_append {text : List Char} {items : List Json} :
    IsItems text items → ∀ {rest : List Char},
      tokens? (text ++ ']' :: rest) = (tokens? rest).map (listTokens items ++ .closeArray :: ·)
  | .last h, rest => by
    rw [h.tokens?_append (endsNumber_cons (by decide) _), tokens?_mark .closeArray trivial,
      Option.map_map, listTokens, itemTokens]
    simp [Function.comp_def]
  | .cons h hrest, rest => by
    rw [List.append_assoc, List.cons_append, h.tokens?_append (endsNumber_cons (by decide) _),
      tokens?_mark .comma trivial, hrest.tokens?_append, Option.map_map, Option.map_map, listTokens,
      itemTokens_eq_of_ne_nil hrest.ne_nil]
    simp [Function.comp_def]

theorem IsMember.tokens?_append {text : List Char} {member : String × Json} :
    IsMember text member → ∀ {rest : List Char}, EndsNumber rest → tokens? (text ++ rest) =
      (tokens? rest).map fun ts => .string member.1 :: .colon :: (member.2.tokens ++ ts)
  | .mk hbefore hkey hafter h, rest, hrest => by
    rw [List.append_assoc, List.append_assoc, List.append_assoc, List.cons_append,
      tokens?_blank hbefore, Json.tokens?_append hkey (Or.inl trivial), tokens?_blank hafter,
      tokens?_mark .colon trivial, h.tokens?_append hrest, Option.map_map, Option.map_map]
    rfl

theorem IsMembers.tokens?_append {text : List Char} {members : List (String × Json)} :
    IsMembers text members → ∀ {rest : List Char}, tokens? (text ++ '\x7d' :: rest) =
      (tokens? rest).map (recordTokens members ++ .closeObject :: ·)
  | .last h, rest => by
    rw [h.tokens?_append (endsNumber_cons (by decide) _), tokens?_mark .closeObject trivial,
      Option.map_map, recordTokens, memberTokens]
    simp [Function.comp_def]
  | .cons h hrest, rest => by
    rw [List.append_assoc, List.cons_append, h.tokens?_append (endsNumber_cons (by decide) _),
      tokens?_mark .comma trivial, hrest.tokens?_append, Option.map_map, Option.map_map,
      recordTokens, memberTokens_eq_of_ne_nil hrest.ne_nil]
    simp [Function.comp_def]

end

/-! ### What is taken follows the rules -/

-- The recursion is on the value: its tokens say which rule its text follows.
mutual

theorem isValue_of_tokens? (v : Json) {cs : List Char} {ts : List Token}
    (h : tokens? cs = some (v.tokens ++ ts)) : ∃ blank text rest, IsBlank blank ∧
      IsValue text v ∧ cs = blank ++ (text ++ rest) ∧ tokens? rest = some ts := by
  cases v with
  | null =>
    obtain ⟨blank, text, rest, hblank, htoken, hcs, hrest⟩ := isToken_of_tokens? h
    exact ⟨blank, text, rest, hblank, .null htoken, hcs, hrest⟩
  | bool b =>
    obtain ⟨blank, text, rest, hblank, htoken, hcs, hrest⟩ := isToken_of_tokens? h
    exact ⟨blank, text, rest, hblank, .bool htoken, hcs, hrest⟩
  | number n =>
    obtain ⟨blank, text, rest, hblank, htoken, hcs, hrest⟩ := isToken_of_tokens? h
    exact ⟨blank, text, rest, hblank, .number htoken, hcs, hrest⟩
  | string s =>
    obtain ⟨blank, text, rest, hblank, htoken, hcs, hrest⟩ := isToken_of_tokens? h
    exact ⟨blank, text, rest, hblank, .string htoken, hcs, hrest⟩
  | array items =>
    rw [tokens_array, List.cons_append, List.append_assoc] at h
    obtain ⟨blank, _, rest, hblank, hopen, rfl, hrest⟩ := isToken_of_tokens? h
    cases hopen
    by_cases hne : items = []
    · rw [hne] at hrest ⊢
      obtain ⟨inner, _, after, hinner, hclose, rfl, hafter⟩ := isToken_of_tokens? hrest
      cases hclose
      exact ⟨blank, _, after, hblank, .emptyArray hinner, by simp, hafter⟩
    · obtain ⟨text, after, hitems, rfl, hafter⟩ := isItems_of_tokens? items hne hrest
      exact ⟨blank, _, after, hblank, .array hitems, by simp, hafter⟩
  | object members =>
    rw [tokens_object, List.cons_append, List.append_assoc] at h
    obtain ⟨blank, _, rest, hblank, hopen, rfl, hrest⟩ := isToken_of_tokens? h
    cases hopen
    by_cases hne : members = []
    · rw [hne] at hrest ⊢
      obtain ⟨inner, _, after, hinner, hclose, rfl, hafter⟩ := isToken_of_tokens? hrest
      cases hclose
      exact ⟨blank, _, after, hblank, .emptyObject hinner, by simp, hafter⟩
    · obtain ⟨text, after, hmembers, rfl, hafter⟩ := isMembers_of_tokens? members hne hrest
      exact ⟨blank, _, after, hblank, .object hmembers, by simp, hafter⟩

theorem isItems_of_tokens? (items : List Json) (hne : items ≠ []) {cs : List Char}
    {ts : List Token} (h : tokens? cs = some (listTokens items ++ .closeArray :: ts)) :
    ∃ text rest, IsItems text items ∧ cs = text ++ ']' :: rest ∧ tokens? rest = some ts := by
  cases items with
  | nil => exact absurd rfl hne
  | cons item items =>
    rw [listTokens, List.append_assoc] at h
    obtain ⟨before, text, rest, hbefore, hitem, rfl, hrest⟩ := isValue_of_tokens? item h
    by_cases hlast : items = []
    · rw [hlast] at hrest ⊢
      obtain ⟨after, _, tail, hafter, hclose, rfl, htail⟩ := isToken_of_tokens? hrest
      cases hclose
      exact ⟨_, tail, .last (.mk hbefore hitem hafter), by simp, htail⟩
    · rw [itemTokens_eq_of_ne_nil hlast] at hrest
      obtain ⟨after, _, tail, hafter, hcomma, rfl, htail⟩ := isToken_of_tokens? hrest
      cases hcomma
      obtain ⟨more, last, hitems, rfl, hmore⟩ := isItems_of_tokens? items hlast htail
      exact ⟨_, last, .cons (.mk hbefore hitem hafter) hitems, by simp, hmore⟩

theorem isMembers_of_tokens? (members : List (String × Json)) (hne : members ≠ [])
    {cs : List Char} {ts : List Token}
    (h : tokens? cs = some (recordTokens members ++ .closeObject :: ts)) : ∃ text rest,
      IsMembers text members ∧ cs = text ++ '\x7d' :: rest ∧ tokens? rest = some ts := by
  cases members with
  | nil => exact absurd rfl hne
  | cons member members =>
    obtain ⟨key, value⟩ := member
    rw [recordTokens, List.cons_append, List.cons_append, List.append_assoc] at h
    obtain ⟨front, _, cs₁, hfront, hkey, rfl, hcs₁⟩ := isToken_of_tokens? h
    obtain ⟨back, _, cs₂, hback, hcolon, rfl, hcs₂⟩ := isToken_of_tokens? hcs₁
    cases hcolon
    obtain ⟨before, text, rest, hbefore, hvalue, rfl, hrest⟩ := isValue_of_tokens? value hcs₂
    by_cases hlast : members = []
    · rw [hlast] at hrest ⊢
      obtain ⟨after, _, tail, hafter, hclose, rfl, htail⟩ := isToken_of_tokens? hrest
      cases hclose
      exact ⟨_, tail, .last (.mk hfront hkey hback (.mk hbefore hvalue hafter)), by simp, htail⟩
    · rw [memberTokens_eq_of_ne_nil hlast] at hrest
      obtain ⟨after, _, tail, hafter, hcomma, rfl, htail⟩ := isToken_of_tokens? hrest
      cases hcomma
      obtain ⟨more, last, hmembers, rfl, hmore⟩ := isMembers_of_tokens? members hlast htail
      exact ⟨_, last, .cons (.mk hfront hkey hback (.mk hbefore hvalue hafter)) hmembers,
        by simp, hmore⟩

end

/-! ### Documents -/

section

variable {text more : List Char} {v w : Json}

theorem parse?_eq_some_iff : parse? text = some v ↔ IsDocument text v := by
  rw [parse?_eq_some_iff_tokens?, IsDocument]
  refine and_congr_left' ⟨fun h => ?_, fun h => ?_⟩
  · rw [← List.append_nil v.tokens] at h
    obtain ⟨before, text, after, hbefore, htext, rfl, hafter⟩ := isValue_of_tokens? v h
    exact .mk hbefore htext (tokens?_nil_iff.mp hafter)
  · have hend : EndsNumber [] := nofun
    have htokens := h.tokens?_append hend
    rwa [List.append_nil, tokens?_nil, Option.map_some, List.append_nil] at htokens

/-- Where a document that is no number is one still with more after it, the more is blank. -/
theorem IsDocument.isBlank_of_append (hv : IsDocument text v) (hnumber : ∀ n, v ≠ .number n)
    (hw : IsDocument (text ++ more) w) : IsBlank more := by
  obtain ⟨⟨hbefore, hvalue, hafter⟩, hdepth⟩ := hv
  obtain ⟨htokens, hw⟩ := parse?_eq_some_iff_tokens?.mp (parse?_eq_some_iff.mpr hw)
  rw [List.append_assoc, List.append_assoc, tokens?_blank hbefore,
    hvalue.tokens?_append fun ⟨n, hn⟩ => absurd hn (hnumber n), tokens?_blank hafter] at htokens
  obtain ⟨ts, hmore, hts⟩ := Option.map_eq_some_iff.mp htokens
  obtain rfl := eq_nil_of_ofTokens?_append hdepth (ofTokens?_eq_some_iff.mpr ⟨hts, hw⟩)
  exact tokens?_nil_iff.mp hmore

/-- Whether bytes are a document that denotes a value. -/
def Denotes (bs : Bytes) (v : Json) : Prop := ∃ text, bs = Utf8.encode text ∧ IsDocument text v

theorem ofBytes?_eq_some_iff {bs : Bytes} : ofBytes? bs = some v ↔ Denotes bs v := by
  simp only [ofBytes?, Option.bind_eq_some_iff, Utf8.decode?_eq_some_iff, parse?_eq_some_iff,
    Denotes]

theorem Denotes.eq {bs : Bytes} (hv : Denotes bs v) (hw : Denotes bs w) : v = w :=
  Option.some.inj ((ofBytes?_eq_some_iff.mpr hv).symm.trans (ofBytes?_eq_some_iff.mpr hw))

end

end CallDepth.Json
