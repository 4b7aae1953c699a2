import CallDepth.Proofs.Json.Document
import CallDepth.Proofs.Json.Token

/-!
# Reading what is written

A value that is written on several lines is written as a document that denotes it, if it is nested no
deeper than can be read and holds no numbers but natural ones of 64 bits.
-/

namespace CallDepth.Json

/-- Whether all numbers in a value are natural ones that are kept as they are. -/
def Plain (v : Json) : Prop := ∀ t ∈ v.tokens, t.Plain

theorem plain_itemTokens_iff {items : List Json} :
    (∀ t ∈ itemTokens items, t.Plain) ↔ ∀ item ∈ items, item.Plain := by
  induction items with
  | nil => exact ⟨nofun, nofun⟩
  | cons item items ih =>
    simp only [itemTokens, List.forall_mem_cons, List.forall_mem_append, ih]
    exact ⟨fun ⟨_, hitem, hrest⟩ => ⟨hitem, hrest⟩, fun ⟨hitem, hrest⟩ => ⟨trivial, hitem, hrest⟩⟩

theorem plain_memberTokens_iff {members : List (String × Json)} :
    (∀ t ∈ memberTokens members, t.Plain) ↔ ∀ member ∈ members, member.2.Plain := by
  induction members with
  | nil => exact ⟨nofun, nofun⟩
  | cons member members ih =>
    simp only [memberTokens, List.forall_mem_cons, List.forall_mem_append, ih]
    exact ⟨fun ⟨_, _, _, hvalue, hrest⟩ => ⟨hvalue, hrest⟩,
      fun ⟨hvalue, hrest⟩ => ⟨trivial, trivial, trivial, hvalue, hrest⟩⟩

theorem plain_array_iff {items : List Json} :
    (array items).Plain ↔ ∀ item ∈ items, item.Plain := by
  rw [← plain_itemTokens_iff, Plain, tokens_array]
  cases items with
  | nil => simp [listTokens, itemTokens, Token.Plain]
  | cons item items => simp [listTokens, itemTokens, Token.Plain, or_imp, forall_and]

theorem plain_object_iff {members : List (String × Json)} :
    (object members).Plain ↔ ∀ member ∈ members, member.2.Plain := by
  rw [← plain_memberTokens_iff, Plain, tokens_object]
  cases members with
  | nil => simp [recordTokens, memberTokens, Token.Plain]
  | cons member members => simp [recordTokens, memberTokens, Token.Plain, or_imp, forall_and]

theorem plain_string (s : String) : (string s).Plain := List.forall_mem_singleton.mpr trivial

theorem plain_natural {n : Nat} (h : n ≤ maxSignificand) : (number (.natural n)).Plain :=
  List.forall_mem_singleton.mpr ⟨n, h, rfl⟩

/-! ### Lines -/

theorem isBlank_newLine (depth : Nat) : IsBlank (newLine depth) := by
  intro c hc
  rcases List.mem_cons.mp hc with rfl | hc
  · rfl
  · rw [List.eq_of_mem_replicate hc]
    rfl

section

variable {text after : List Char} {v : Json}

theorem IsValue.isPadded_newLine (h : IsValue text v) (depth : Nat) (hafter : IsBlank after) :
    IsPadded (newLine depth ++ text ++ after) v := by
  rw [List.append_assoc]
  exact .mk (isBlank_newLine depth) h hafter

theorem IsValue.isMember_newLine (h : IsValue text v) (depth : Nat) (key : String)
    (hafter : IsBlank after) :
    IsMember (newLine depth ++ quote key ++ [':', ' '] ++ text ++ after) (key, v) := by
  have hspace : IsBlank [' '] := List.forall_mem_singleton.mpr rfl
  have hmember := IsMember.mk (isBlank_newLine depth) (isToken_quote key) isBlank_nil
    (.mk hspace h hafter)
  simpa using hmember

end

-- The items after the first each start with the comma that ends the one before, so the text of an
-- item is cut before that comma; the last has the line break before the bracket after it.
mutual

theorem isValue_indented (v : Json) (hplain : v.Plain) (depth : Nat) :
    IsValue (indented depth v) v := by
  cases v with
  | null => exact .null .null
  | bool b =>
    cases b with
    | true => exact .bool .true
    | false => exact .bool .false
  | number n =>
    obtain ⟨value, hvalue, rfl⟩ := hplain _ (List.mem_singleton_self _)
    exact .number (isToken_natural hvalue)
  | string s => exact .string (isToken_quote s)
  | array items =>
    cases items with
    | nil =>
      exact .emptyArray isBlank_nil
    | cons item rest =>
      obtain ⟨hitem, hrest⟩ := List.forall_mem_cons.mp (plain_array_iff.mp hplain)
      have hitems := isItems_indented rest hrest (depth + 1)
        (isValue_indented item hitem (depth + 1)) (isBlank_newLine depth)
      have harray := IsValue.array hitems
      simpa [indented] using harray
  | object members =>
    cases members with
    | nil =>
      exact .emptyObject isBlank_nil
    | cons member rest =>
      obtain ⟨key, value⟩ := member
      obtain ⟨hvalue, hrest⟩ := List.forall_mem_cons.mp (plain_object_iff.mp hplain)
      have hmembers := isMembers_indented rest hrest (depth + 1) key
        (isValue_indented value hvalue (depth + 1)) (isBlank_newLine depth)
      have hobject := IsValue.object hmembers
      simpa [indented] using hobject

theorem isItems_indented (items : List Json) (hplain : ∀ item ∈ items, item.Plain) (depth : Nat)
    {text after : List Char} {v : Json} (hv : IsValue text v) (hafter : IsBlank after) :
    IsItems (newLine depth ++ text ++ indentedItems depth items ++ after) (v :: items) := by
  cases items with
  | nil =>
    rw [indentedItems, List.append_nil]
    exact .last (hv.isPadded_newLine depth hafter)
  | cons item rest =>
    obtain ⟨hitem, hrest⟩ := List.forall_mem_cons.mp hplain
    have hitems := isItems_indented rest hrest depth (isValue_indented item hitem depth) hafter
    have hall := IsItems.cons (hv.isPadded_newLine depth isBlank_nil) hitems
    simpa [indentedItems] using hall

theorem isMembers_indented (members : List (String × Json))
    (hplain : ∀ member ∈ members, member.2.Plain) (depth : Nat) {text after : List Char} {v : Json}
    (key : String) (hv : IsValue text v) (hafter : IsBlank after) :
    IsMembers (newLine depth ++ quote key ++ [':', ' '] ++ text ++ indentedMembers depth members ++
      after) ((key, v) :: members) := by
  cases members with
  | nil =>
    rw [indentedMembers, List.append_nil]
    exact .last (hv.isMember_newLine depth key hafter)
  | cons member rest =>
    obtain ⟨next, value⟩ := member
    obtain ⟨hvalue, hrest⟩ := List.forall_mem_cons.mp hplain
    have hmembers := isMembers_indented rest hrest depth next
      (isValue_indented value hvalue depth) hafter
    have hall := IsMembers.cons (hv.isMember_newLine depth key isBlank_nil) hmembers
    simpa [indentedMembers] using hall

end

/-! ### Documents -/

section

variable {v : Json}

theorem isDocument_pretty (hplain : v.Plain) (hdepth : v.depth ≤ maxDepth) :
    IsDocument v.pretty v := by
  have hpadded := IsPadded.mk isBlank_nil (isValue_indented v hplain 0) isBlank_nil
  rw [List.nil_append, List.append_nil] at hpadded
  exact ⟨hpadded, hdepth⟩

theorem denotes_pretty (hplain : v.Plain) (hdepth : v.depth ≤ maxDepth) :
    Denotes (Text.Utf8.encode v.pretty) v :=
  ⟨_, rfl, isDocument_pretty hplain hdepth⟩

end

end CallDepth.Json
