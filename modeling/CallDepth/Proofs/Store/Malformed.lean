import CallDepth.Proofs.Method.Leading
import CallDepth.Proofs.Store.Snapshot

/-!
# Names in a snapshot that are no methods

An index may hold any texts as names, and whatever they are it is written. It is read back exactly if
all of its names are written methods; otherwise reading ends at the first that is none, in the order
in which they were written.
-/

namespace CallDepth.Snapshot

open Text

variable {α β γ : Type}

/-! ### The first malformed name -/

def firstMalformed? (names : List String) : Option String :=
  names.find? fun name => (Method.parse? name).isNone

theorem firstMalformed?_append (names more : List String) :
    firstMalformed? (names ++ more) = (firstMalformed? names).or (firstMalformed? more) :=
  List.find?_append

theorem firstMalformed?_eq_none_iff {names : List String} :
    firstMalformed? names = none ↔
      ∀ name ∈ names, ∃ f : Method.Form, f.text = name.toList := by
  simp only [firstMalformed?, List.find?_eq_none, Bool.not_eq_true, Option.isNone_eq_false_iff,
    Method.isSome_parse?_iff]

theorem firstMalformed?_of_split {before after : List String} {name : String}
    (hbefore : ∀ s ∈ before, ∃ f : Method.Form, f.text = s.toList)
    (hname : ∀ f : Method.Form, f.text ≠ name.toList) :
    firstMalformed? (before ++ name :: after) = some name := by
  have hnone : (Method.parse? name).isNone = true :=
    Option.isNone_iff_eq_none.mpr (Method.parse?_eq_none_iff.mpr hname)
  rw [firstMalformed?_append, firstMalformed?_eq_none_iff.mpr hbefore, Option.none_or]
  exact List.find?_cons_of_pos hnone

/-! ### Decoders that check names -/

/-- What is read where a value was written that holds the given names. -/
def verdict (value : α) (names : List String) (rest : Bytes) : Except Defect (α × Bytes) :=
  match firstMalformed? names with
  | none => .ok (value, rest)
  | some name => .error (.malformed name)

/-- Whether a decoder reads what an encoder writes of the values that fit, unless a name in them is
malformed, and stops at the first that is. -/
def Checks (decode : Decoder α) (encode : α → Bytes) (fits : α → Prop)
    (names : α → List String) : Prop :=
  ∀ a, fits a → ∀ rest, decode (encode a ++ rest) = verdict a (names a) rest

theorem checks_word : Checks decodeWord word (· < wordCount) fun _ => [] :=
  fun _ h rest => inverts_word.decode_append h rest

theorem checks_method : Checks decodeMethod encodeString Fits fun name => [name] := by
  intro name h rest
  simp only [decodeMethod, inverts_string.decode_append h, bind, Except.bind, verdict,
    firstMalformed?]
  cases hparse : Method.parse? name <;> simp [hparse]

section

variable {decode : Decoder α} {encode : α → Bytes} {fits : α → Prop} {names : α → List String}

theorem Checks.pair {decode' : Decoder β} {encode' : β → Bytes} {fits' : β → Prop}
    {names' : β → List String} (h : Checks decode encode fits names)
    (h' : Checks decode' encode' fits' names') (make : α → β → γ) {first : γ → α} {second : γ → β}
    (hmake : ∀ c, make (first c) (second c) = c) :
    Checks
      (fun bs => do
        let (a, bs) ← decode bs
        let (b, bs) ← decode' bs
        .ok (make a b, bs))
      (fun c => encode (first c) ++ encode' (second c))
      (fun c => fits (first c) ∧ fits' (second c))
      (fun c => names (first c) ++ names' (second c)) := by
  intro c hc rest
  simp only [List.append_assoc, h _ hc.1, verdict, firstMalformed?_append]
  cases firstMalformed? (names (first c)) with
  | some name => rfl
  | none =>
    simp only [bind, Except.bind, h' _ hc.2, verdict, Option.none_or]
    cases firstMalformed? (names' (second c)) with
    | some name => rfl
    | none => simp only [hmake]

theorem Checks.manyFrom (h : Checks decode encode fits names) {values : List α}
    (hvalues : ∀ a ∈ values, fits a) (done : List α) (rest : Bytes) :
    decodeManyFrom decode done values.length (values.flatMap encode ++ rest) =
      verdict (done.reverse ++ values) (values.flatMap names) rest := by
  induction values generalizing done with
  | nil => simp [decodeManyFrom, verdict, firstMalformed?]
  | cons a values ih =>
    obtain ⟨ha, hmore⟩ := List.forall_mem_cons.mp hvalues
    rw [List.length_cons, List.flatMap_cons, List.append_assoc, decodeManyFrom, h a ha,
      List.flatMap_cons, verdict, verdict, firstMalformed?_append]
    cases firstMalformed? (names a) with
    | some name => rfl
    | none =>
      simp only [ih hmore, verdict, List.reverse_cons, List.append_assoc, List.singleton_append,
        Option.none_or]

theorem Checks.many (h : Checks decode encode fits names) :
    Checks (decodeMany decode) (fun values => word values.length ++ values.flatMap encode)
      (fun values => values.length < wordCount ∧ ∀ a ∈ values, fits a)
      (fun values => values.flatMap names) := by
  intro values hvalues rest
  simp only [decodeMany, List.append_assoc, inverts_word.decode_append hvalues.1, bind,
    Except.bind, h.manyFrom hvalues.2, List.reverse_nil, List.nil_append]

end

/-! ### Indexes -/

def entryNames (entry : CallEntry) : List String := [entry.callee]

def rowNames (row : String × List CallEntry) : List String := row.1 :: row.2.map CallEntry.callee

/-- The names in an index, in the order in which they are written: each root before the methods that
it reaches. -/
def names (index : CallIndex) : List String := index.toList.flatMap rowNames

def FitsEntry (entry : CallEntry) : Prop := Fits entry.callee ∧ entry.level < wordCount

def FitsRow (row : String × List CallEntry) : Prop :=
  Fits row.1 ∧ row.2.length < wordCount ∧ ∀ entry ∈ row.2, FitsEntry entry

theorem checks_entry : Checks decodeEntry encodeEntry FitsEntry entryNames :=
  checks_method.pair checks_word CallEntry.mk fun _ => rfl

theorem checks_row : Checks decodeRow encodeRow FitsRow rowNames := by
  have h := checks_method.pair checks_entry.many Prod.mk (fun _ => rfl)
  have hnames : rowNames = fun row : String × List CallEntry =>
      [row.1] ++ row.2.flatMap entryNames := by
    funext row
    rw [rowNames, List.singleton_append, List.map_eq_flatMap]
    rfl
  rw [encodeRow_eq, hnames]
  exact h

/-- Whether the numbers of roots and entries and the lengths of names in an index are words, as those
of values in memory are. -/
def HasWordLengths (index : CallIndex) : Prop :=
  index.size < wordCount ∧ ∀ row ∈ index.toList,
    Fits row.1 ∧ row.2.length < wordCount ∧ ∀ entry ∈ row.2, Fits entry.callee

def HasWordLevels (index : CallIndex) : Prop :=
  ∀ row ∈ index.toList, ∀ entry ∈ row.2, entry.level < wordCount

theorem decode_encode_append_eq {index : CallIndex} (hlengths : HasWordLengths index)
    (hlevels : HasWordLevels index) (rest : Bytes) :
    decode (encode index ++ rest) =
      match firstMalformed? (names index) with
      | none => .ok index
      | some name => .error (.malformed name) := by
  have hfits : ∀ row ∈ index.toList, FitsRow row := by
    intro row hrow
    obtain ⟨hroot, hlength, hcallees⟩ := hlengths.2 row hrow
    exact ⟨hroot, hlength, fun entry h => ⟨hcallees entry h, hlevels row hrow entry h⟩⟩
  have hrows := checks_row.many index.toList
    ⟨by rw [CallIndex.length_toList]; exact hlengths.1, hfits⟩ rest
  dsimp only at hrows
  rw [CallIndex.length_toList] at hrows
  rw [decode, encode, hrows, verdict, ← names]
  cases firstMalformed? (names index) with
  | none => exact congrArg Except.ok index.ofList_toList
  | some name => rfl

theorem codec_encode (index : CallIndex) : codec.encode index = encode index := rfl

theorem codec_decode (bs : Bytes) : codec.decode bs = (decode bs).mapError Defect.message := rfl

/-- What is read where an index was written, whatever follows it. It is the index exactly if each of
its names is a written method. If some are not, reading fails with the message about the first of
them, where the roots come in canonical order and each comes before its entries. -/
theorem decode_stops_at_malformed {index : CallIndex} (hlengths : HasWordLengths index)
    (hlevels : HasWordLevels index) (rest : Bytes) :
    (codec.decode (codec.encode index ++ rest) = .ok index ↔
      ∀ name ∈ names index, ∃ f : Method.Form, f.text = name.toList) ∧
    (∀ before name after, names index = before ++ name :: after →
      (∀ s ∈ before, ∃ f : Method.Form, f.text = s.toList) →
      (∀ f : Method.Form, f.text ≠ name.toList) →
      codec.decode (codec.encode index ++ rest) =
        .error ("snapshot does not decode: " ++ (Failure.malformedMethod name).message)) ∧
    index.toList.Pairwise fun row next => compare row.1 next.1 = .lt := by
  have hdecode := decode_encode_append_eq hlengths hlevels rest
  refine ⟨?_, ?_, index.pairwise_toList⟩
  · rw [codec_decode, codec_encode, hdecode, ← firstMalformed?_eq_none_iff]
    cases firstMalformed? (names index) with
    | none => simp [Except.mapError]
    | some name => simp [Except.mapError]
  · intro before name after hnames hbefore hname
    have hfirst : firstMalformed? (names index) = some name := by
      rw [hnames]
      exact firstMalformed?_of_split hbefore hname
    rw [codec_decode, codec_encode, hdecode, hfirst]
    rfl

/-- An index of two roots, one of which reaches what is no method. -/
def withMalformed : CallIndex :=
  .ofList [("B:b()", [⟨"C:c(int)", 1⟩, ⟨"no method", 2⟩, ⟨"", 3⟩]), ("A:a()", [])]

theorem toList_withMalformed : withMalformed.toList =
    [("A:a()", []), ("B:b()", [⟨"C:c(int)", 1⟩, ⟨"no method", 2⟩, ⟨"", 3⟩])] := by
  decide +kernel

theorem hasWordLengths_withMalformed : HasWordLengths withMalformed := by
  unfold HasWordLengths Fits
  rw [← CallIndex.length_toList, toList_withMalformed]
  decide +kernel

theorem decode_stops_at_no_method :
    HasWordLengths withMalformed ∧ HasWordLevels withMalformed ∧
    codec.decode (codec.encode withMalformed ++ [0, 1]) =
      .error "snapshot does not decode: Malformed method identifier: 'no method'" := by
  have hlevels : HasWordLevels withMalformed := by
    unfold HasWordLevels
    rw [toList_withMalformed]
    decide +kernel
  have hnames : names withMalformed =
      ["A:a()", "B:b()", "C:c(int)"] ++ "no method" :: [""] := by
    rw [names, toList_withMalformed]
    rfl
  have hbefore := firstMalformed?_eq_none_iff.mp
    (by decide +kernel : firstMalformed? ["A:a()", "B:b()", "C:c(int)"] = none)
  have hnone : (Method.parse? "no method").isNone = true := by decide +kernel
  have hname := Method.parse?_eq_none_iff.mp (Option.isNone_iff_eq_none.mp hnone)
  have hdecode := (decode_stops_at_malformed hasWordLengths_withMalformed hlevels [0, 1]).2.1 _ _ _
    hnames hbefore hname
  exact ⟨hasWordLengths_withMalformed, hlevels, hdecode⟩

end CallDepth.Snapshot
