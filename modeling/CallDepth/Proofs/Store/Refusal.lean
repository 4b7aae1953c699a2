import CallDepth.Proofs.Method.Leading
import CallDepth.Proofs.Store.MethodList

/-!
# Lists that are refused

A file holds a list of methods if it is a document that denotes an array of written methods, at least
one. What is wrong with any other file is found in the order in which it is read: that it is no
document, no array, or empty, and else the first item that is no written method.
-/

namespace CallDepth.MethodList

open Text

/-- Whether a text is one that the grammar of methods writes. -/
def IsWritten (text : String) : Prop := ∃ f : Method.Form, f.text = text.toList

/-- Whether an item of a document is a string that is written, and the method is what it says. -/
def Holds (item : Json) (m : Method) : Prop :=
  ∃ f : Method.Form, item = .string (String.ofList f.text) ∧ f.Describes m

instance (text : String) : Decidable (IsWritten text) :=
  decidable_of_iff _ Method.isSome_parse?_iff

variable {ms ns : List Method} {m : Method} {bs : Bytes} {item v : Json} {text : String}

/-! ### Items -/

theorem ofItem_eq_ok_iff_holds : ofItem item = .ok m ↔ Holds item m := by
  rw [ofItem_eq_ok_iff]
  constructor
  · rintro ⟨⟨f, rfl⟩, rfl⟩
    exact ⟨f, by rw [← f.toList_canonical, String.ofList_toList], f.describes_method⟩
  · rintro ⟨f, rfl, hf⟩
    obtain rfl := Method.Form.describes_iff.mp hf
    exact ⟨⟨f, rfl⟩, by rw [← f.toList_canonical, String.ofList_toList]⟩

theorem mapM_ofItem_eq_ok_iff_holds {items : List Json} :
    items.mapM ofItem = .ok ms ↔ List.Forall₂ Holds items ms := by
  simp only [mapM_eq_ok_iff, ofItem_eq_ok_iff_holds]

theorem ofItem_of_not_written (h : ¬ IsWritten text) :
    ofItem (.string text) = .error (.malformed text) := by
  have hparse : Method.parse? text = none :=
    Method.parse?_eq_none_iff.mpr fun f hf => h ⟨f, hf⟩
  rw [ofItem, hparse]

theorem ofItem_of_not_string (h : ∀ text, item ≠ .string text) :
    ofItem item = .error (.notString item) := by
  cases item with
  | string text => exact absurd rfl (h text)
  | _ => rfl

theorem exists_ofItem_of_written (h : IsWritten text) : ∃ m, ofItem (.string text) = .ok m := by
  obtain ⟨f, hf⟩ := h
  exact ⟨f.method, ofItem_eq_ok_iff_holds.mpr
    ⟨f, by rw [hf, String.ofList_toList], f.describes_method⟩⟩

theorem isWritten_of_conforms (h : m.Conforms) : IsWritten m.canonical := by
  obtain ⟨f, rfl⟩ := h
  exact ⟨f, f.toList_canonical.symm⟩

/-! ### Documents -/

theorem decode_of_denotes (h : Json.Denotes bs v) : decode bs = ofJson v := by
  rw [decode, Json.ofBytes?_eq_some_iff.mpr h]

theorem decode_of_not_denotes (h : ∀ v, ¬ Json.Denotes bs v) : decode bs = .error .notJson := by
  rw [decode]
  cases hv : Json.ofBytes? bs with
  | none => rfl
  | some v => exact absurd (Json.ofBytes?_eq_some_iff.mp hv) (h v)

theorem ofJson_of_not_array (h : ∀ items, v ≠ .array items) : ofJson v = .error .notArray := by
  cases v with
  | array items => exact absurd rfl (h items)
  | _ => rfl

theorem ofJson_array_of_ne_nil {items : List Json} (h : items ≠ []) :
    ofJson (.array items) = items.mapM ofItem := by
  cases items with
  | nil => exact absurd rfl h
  | cons item items => rfl

/-- An array is refused for its first bad item. -/
theorem ofJson_of_bad_item {before after : List Json} {defect : Defect}
    (hbefore : ∀ earlier ∈ before, ∃ m, ofItem earlier = .ok m) (h : ofItem item = .error defect) :
    ofJson (.array (before ++ item :: after)) = .error defect := by
  rw [ofJson_array_of_ne_nil (by simp)]
  exact mapM_eq_error_iff.mpr ⟨before, item, after, rfl, hbefore, h⟩

theorem codec_decode_eq_ok_iff : codec.decode bs = .ok ms ↔ decode bs = .ok ms :=
  mapError_eq_ok_iff

theorem codec_decode_of_error {defect : Defect} (h : decode bs = .error defect) :
    codec.decode bs = .error defect.message := by
  have hdecode : codec.decode bs = (decode bs).mapError Defect.message := rfl
  rw [hdecode, h]
  rfl

theorem isStorable_eq_true_iff : codec.isStorable ms = true ↔ ms ≠ [] := by
  cases ms <;> simp [codec]

/-! ### Lists that were written -/

theorem forall₂_same_iff :
    List.Forall₂ (fun m n => m.same n = true) ms ns ↔
      ms.map Method.canonical = ns.map Method.canonical := by
  rw [← List.forall₂_eq_eq_eq, List.forall₂_map_left_iff, List.forall₂_map_right_iff]
  simp only [Method.same, decide_eq_true_eq]

theorem exists_ofItem_of_forall_written (h : ∀ m ∈ ms, IsWritten m.canonical) :
    ∀ item ∈ ms.map fun m => Json.string m.canonical, ∃ m, ofItem item = .ok m := by
  intro item hitem
  obtain ⟨m, hm, rfl⟩ := List.mem_map.mp hitem
  exact exists_ofItem_of_written (h m hm)

theorem map_canonical_of_decode_encode (h : decode (encode ms) = .ok ns) :
    ns.map Method.canonical = ms.map Method.canonical := by
  obtain ⟨-, -, hjson⟩ := decode_eq_ok_iff.mp h
  have hitems := Json.array.inj (Option.some.inj (hjson.symm.trans (ofBytes?_encode ms)))
  have hstrings : (ns.map Method.canonical).map Json.string =
      (ms.map Method.canonical).map Json.string := by
    rw [List.map_map, List.map_map]
    exact hitems
  exact (List.map_inj_right fun _ _ => Json.string.inj).mp hstrings

/-- What is read where a list of methods was written, which denotes the canonical forms of all of them
in their order. It is the same list exactly if there are some and the grammar writes each form. Else
reading fails: because there are none, which keeps only such a list from being stored, or with the
message about the first form that the grammar does not write. -/
theorem decode_encode_iff_written (ms : List Method) :
    Json.Denotes (codec.encode ms) (.array (ms.map fun m => .string m.canonical)) ∧
    ((∃ found, codec.decode (codec.encode ms) = .ok found ∧
        List.Forall₂ (fun n m => n.same m = true) found ms) ↔
      ms ≠ [] ∧ ∀ m ∈ ms, IsWritten m.canonical) ∧
    (∀ before m after, ms = before ++ m :: after →
      (∀ earlier ∈ before, IsWritten earlier.canonical) → ¬ IsWritten m.canonical →
      codec.decode (codec.encode ms) =
        .error ("Malformed method identifier: '" ++ m.canonical ++ "'")) ∧
    (codec.isStorable ms = false ↔ ms = []) ∧
    (ms = [] → codec.decode (codec.encode ms) =
      .error "expected a non-empty array of method strings") := by
  have hdecode : decode (encode ms) = ofJson (toJson ms) := decode_of_denotes (denotes_encode ms)
  refine ⟨denotes_encode ms, ⟨?_, ?_⟩, ?_, ?_, ?_⟩
  · rintro ⟨found, hfound, hsame⟩
    obtain ⟨hne, hconforms, -⟩ := decode_eq_ok_iff.mp (codec_decode_eq_ok_iff.mp hfound)
    have hmap := forall₂_same_iff.mp hsame
    refine ⟨?_, fun m hm => ?_⟩
    · rintro rfl
      exact hne (List.map_eq_nil_iff.mp hmap)
    · have hmem : m.canonical ∈ found.map Method.canonical := hmap ▸ List.mem_map_of_mem hm
      obtain ⟨n, hn, hcanonical⟩ := List.mem_map.mp hmem
      exact hcanonical ▸ isWritten_of_conforms (hconforms n hn)
  · rintro ⟨hne, hwritten⟩
    obtain ⟨found, hfound⟩ := exists_mapM_eq_ok (exists_ofItem_of_forall_written hwritten)
    rw [toJson, ofJson_array_of_ne_nil (by simpa using hne), hfound] at hdecode
    exact ⟨found, codec_decode_eq_ok_iff.mpr hdecode,
      forall₂_same_iff.mpr (map_canonical_of_decode_encode hdecode)⟩
  · rintro before m after rfl hbefore hm
    rw [toJson, List.map_append, List.map_cons, ofJson_of_bad_item
      (exists_ofItem_of_forall_written hbefore) (ofItem_of_not_written hm)] at hdecode
    exact codec_decode_of_error hdecode
  · rw [← Bool.not_eq_true, isStorable_eq_true_iff, Classical.not_not]
  · rintro rfl
    exact codec_decode_of_error hdecode

theorem decode_encode_of_quotes :
    codec.decode (codec.encode []) = .error "expected a non-empty array of method strings" ∧
      IsWritten "a.B:c()" ∧ ¬ IsWritten "a\"\\\n é:c()" ∧
      codec.decode (codec.encode [.make "a.B" "c" [], .make "a\"\\\n é" "c" [], .make "" "" []]) =
        .error ("Malformed method identifier: 'a\"\\\n é:c()'") := by
  have hwritten : IsWritten (Method.make "a.B" "c" []).canonical := by decide +kernel
  have hbad : ¬ IsWritten (Method.make "a\"\\\n é" "c" []).canonical := by decide +kernel
  obtain ⟨-, -, hfirst, -, -⟩ := decode_encode_iff_written
    [.make "a.B" "c" [], .make "a\"\\\n é" "c" [], .make "" "" []]
  obtain ⟨-, -, -, -, hempty⟩ := decode_encode_iff_written []
  exact ⟨hempty rfl, hwritten, hbad, hfirst [_] _ [_] rfl (List.forall_mem_singleton.mpr hwritten) hbad⟩

/-! ### All bytes -/

/-- The bytes of a document that are nothing but blank. -/
def isBlankByte (b : UInt8) : Bool := b = 0x20 || b = 0x0A || b = 0x09 || b = 0x0D

theorem isBlankByte_of_mem_encode {cs : List Char} (h : Json.IsBlank cs) :
    ∀ b ∈ Utf8.encode cs, isBlankByte b = true := by
  intro b hb
  obtain ⟨c, hc, hb⟩ := List.mem_flatMap.mp hb
  have hspace := h c hc
  simp only [Json.isSpace, Bool.or_eq_true, decide_eq_true_eq] at hspace
  rcases hspace with ((rfl | rfl) | rfl) | rfl <;> exact List.mem_singleton.mp hb ▸ rfl

/-- What follows a document that denotes an array makes it none, unless it is blank. -/
theorem not_denotes_of_follows {front back : Bytes} {items : List Json}
    (h : Json.Denotes front (.array items)) (hback : ∃ b ∈ back, isBlankByte b = false) :
    ∀ v, ¬ Json.Denotes (front ++ back) v := by
  rintro v ⟨cs, hcs, hv⟩
  obtain ⟨text, rfl, htext⟩ := h
  obtain ⟨more, rfl, rfl⟩ := Utf8.exists_append_of_encode_append hcs
  obtain ⟨b, hb, hnot⟩ := hback
  have hblank := isBlankByte_of_mem_encode (htext.isBlank_of_append nofun hv) b hb
  cases hnot.symm.trans hblank

/-- What is read of any bytes. There is a list exactly if they are a document that denotes an array, at
least one item long, of strings that the grammar of methods writes; the list holds the methods that
they say, each in its place, and can be stored and read back. Else there is one error, for the first of
these that is not so: where the bytes are no document, be it only for what follows one; where what they
denote is no array; where it has no items; and where an item is no string, which is quoted in its
compact form, or no written method. -/
theorem decode_finds_methods (bs : Bytes) :
    (∀ ms, codec.decode bs = .ok ms ↔
      ∃ items, Json.Denotes bs (.array items) ∧ items ≠ [] ∧ List.Forall₂ Holds items ms) ∧
    (∀ ms, codec.decode bs = .ok ms →
      codec.isStorable ms = true ∧ codec.decode (codec.encode ms) = .ok ms) ∧
    (∀ v w, Json.Denotes bs v → Json.Denotes bs w → v = w) ∧
    ((∀ v, ¬ Json.Denotes bs v) → codec.decode bs = .error "not valid JSON") ∧
    (∀ front back items, bs = front ++ back → Json.Denotes front (.array items) →
      (∃ b ∈ back, isBlankByte b = false) → codec.decode bs = .error "not valid JSON") ∧
    (∀ v, Json.Denotes bs v → (∀ items, v ≠ .array items) →
      codec.decode bs = .error "expected a JSON array of method strings") ∧
    (Json.Denotes bs (.array []) →
      codec.decode bs = .error "expected a non-empty array of method strings") ∧
    (∀ before item after, Json.Denotes bs (.array (before ++ item :: after)) →
      (∀ earlier ∈ before, ∃ m, Holds earlier m) →
      (∀ text, item = .string text → ¬ IsWritten text →
        codec.decode bs = .error ("Malformed method identifier: '" ++ text ++ "'")) ∧
      ((∀ text, item ≠ .string text) → codec.decode bs =
        .error ("expected a method string, found " ++ String.ofList item.sorted.compact))) := by
  have hok : ∀ ms, codec.decode bs = .ok ms ↔
      ∃ items, Json.Denotes bs (.array items) ∧ items ≠ [] ∧ List.Forall₂ Holds items ms := by
    intro ms
    rw [codec_decode_eq_ok_iff]
    constructor
    · intro h
      obtain ⟨hne, hconforms, hjson⟩ := decode_eq_ok_iff.mp h
      refine ⟨_, Json.ofBytes?_eq_some_iff.mp hjson, by simpa using hne, ?_⟩
      exact mapM_ofItem_eq_ok_iff_holds.mp (mapM_ofItem_eq_ok_iff.mpr ⟨hconforms, rfl⟩)
    · rintro ⟨items, hdenotes, hne, hitems⟩
      rw [decode_of_denotes hdenotes, ofJson_array_of_ne_nil hne]
      exact mapM_ofItem_eq_ok_iff_holds.mpr hitems
  refine ⟨hok, ?_, fun v w => Json.Denotes.eq, ?_, ?_, ?_, ?_, ?_⟩
  · intro ms hms
    obtain ⟨hne, hconforms, -⟩ := decode_eq_ok_iff.mp (codec_decode_eq_ok_iff.mp hms)
    exact ⟨isStorable_eq_true_iff.mpr hne,
      codec_decode_eq_ok_iff.mpr (decode_encode hne hconforms)⟩
  · exact fun h => codec_decode_of_error (decode_of_not_denotes h)
  · rintro front back items rfl hfront hback
    exact codec_decode_of_error (decode_of_not_denotes (not_denotes_of_follows hfront hback))
  · intro v hv hnot
    exact codec_decode_of_error ((decode_of_denotes hv).trans (ofJson_of_not_array hnot))
  · exact fun h => codec_decode_of_error (decode_of_denotes h)
  · intro before item after hitems hbefore
    simp only [← ofItem_eq_ok_iff_holds] at hbefore
    constructor
    · rintro text rfl hnot
      exact codec_decode_of_error ((decode_of_denotes hitems).trans
        (ofJson_of_bad_item hbefore (ofItem_of_not_written hnot)))
    · intro hnot
      exact codec_decode_of_error ((decode_of_denotes hitems).trans
        (ofJson_of_bad_item hbefore (ofItem_of_not_string hnot)))

/-- An array of a written method, an object that has a key twice, and a text that is no method. -/
def mixed : Json :=
  .array [.string "a.B:c()", .object [("b", .null), ("a", .bool true), ("b", .number (.natural 1))],
    .string "bad"]

theorem denotes_mixed : Json.Denotes (Utf8.encode mixed.pretty) mixed := by
  refine Json.denotes_pretty ?_ (by decide)
  have hone : (Json.number (.natural 1)).Plain := Json.plain_natural (by decide)
  have hnull : Json.null.Plain := List.forall_mem_singleton.mpr trivial
  have htrue : (Json.bool true).Plain := List.forall_mem_singleton.mpr trivial
  simp [mixed, Json.plain_array_iff, Json.plain_object_iff, Json.plain_string, hone, hnull, htrue]

theorem decode_finds_first_of_mixed :
    codec.decode (Utf8.encode mixed.pretty) =
      .error "expected a method string, found \x7b\"a\":true,\"b\":1\x7d" ∧
    Json.Denotes (codec.encode [.make "a.B" "c" []]) (.array [.string "a.B:c()"]) ∧
    codec.decode (codec.encode [.make "a.B" "c" []] ++ [0x0A, 0x5D]) = .error "not valid JSON" ∧
    codec.decode [0xFF] = .error "not valid JSON" := by
  have hfirst : ∃ m, Holds (.string "a.B:c()") m := by
    obtain ⟨m, hm⟩ := @exists_ofItem_of_written "a.B:c()" (by decide +kernel)
    exact ⟨m, ofItem_eq_ok_iff_holds.mp hm⟩
  have hlist := denotes_encode [.make "a.B" "c" []]
  have hnone : ∀ v, ¬ Json.Denotes [0xFF] v := by
    rintro v ⟨text, htext, -⟩
    have hbroken : Utf8.decode? [0xFF] = none := by decide +kernel
    cases hbroken.symm.trans (Utf8.decode?_eq_some_iff.mpr htext)
  obtain ⟨-, -, -, -, -, -, -, hmixed⟩ := decode_finds_methods (Utf8.encode mixed.pretty)
  obtain ⟨-, hobject⟩ :=
    hmixed [_] _ [_] denotes_mixed (List.forall_mem_singleton.mpr hfirst)
  obtain ⟨-, -, -, -, hfollows, -⟩ :=
    decode_finds_methods (codec.encode [.make "a.B" "c" []] ++ [0x0A, 0x5D])
  obtain ⟨-, -, -, hbytes, -⟩ := decode_finds_methods [0xFF]
  exact ⟨(hobject nofun).trans (congrArg Except.error (by decide +kernel)), hlist,
    hfollows _ _ _ rfl hlist ⟨0x5D, by decide, by decide⟩, hbytes hnone⟩

end CallDepth.MethodList
