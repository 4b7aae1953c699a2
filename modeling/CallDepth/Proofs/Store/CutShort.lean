import CallDepth.Proofs.Analysis.Stages
import CallDepth.Proofs.Json.Document
import CallDepth.Proofs.Store.Malformed
import CallDepth.Proofs.Store.MethodList

/-!
# Files that are cut short

A file that is written can be cut short at any byte. What is left of it is refused: a list of methods
is no document without the bracket that ends it, and a snapshot says how much of everything follows.
-/

namespace CallDepth

open Text

variable {α β γ : Type}

/-- Whether bytes are the start of what is written of a value, and not all of it. -/
def Codec.CutShort (codec : Codec α) (value : α) (front : Bytes) : Prop :=
  front <+: codec.encode value ∧ front ≠ codec.encode value

/-! ### Lists of methods -/

namespace MethodList

theorem exists_pretty_eq_concat (ms : List Method) :
    ∃ cs, (toJson ms).pretty = cs ++ [']'] := by
  cases ms with
  | nil => exact ⟨['['], rfl⟩
  | cons m ms =>
    rw [toJson, List.map_cons, Json.pretty, Json.indented, ← List.cons_append]
    exact ⟨_, rfl⟩

/-- Where the start of what is written is read as a list, even as another one, it is all of it. -/
theorem eq_encode_of_decode {tests ms : List Method} {front : Bytes} (h : decode front = .ok ms)
    (hfront : front <+: encode tests) : front = encode tests := by
  obtain ⟨tail, htail⟩ := hfront
  obtain ⟨-, -, hjson⟩ := decode_eq_ok_iff.mp h
  obtain ⟨cs, rfl, hdocument⟩ := Json.ofBytes?_eq_some_iff.mp hjson
  obtain ⟨more, hpretty, hmore⟩ := Utf8.exists_append_of_encode_append htail
  have hall : Json.IsDocument (cs ++ more) (toJson tests) := hpretty ▸ isDocument_pretty tests
  have hblank := hdocument.isBlank_of_append nofun hall
  obtain ⟨before, hlast⟩ := exists_pretty_eq_concat tests
  have hnil : more = [] := by
    rcases List.eq_nil_or_concat more with hnil | ⟨blanks, c, hmore⟩
    · exact hnil
    · -- the last character of a list is its bracket, which is no blank
      rw [List.concat_eq_append] at hmore
      rw [hlast, hmore, ← List.append_assoc] at hpretty
      obtain rfl : ']' = c := List.singleton_inj.mp (List.append_inj_right' hpretty rfl)
      exact absurd (hblank ']' (by simp [hmore])) (by decide)
  rw [← htail, hmore, hnil, Utf8.encode_nil, List.append_nil]

end MethodList

/-! ### Snapshots -/

namespace Snapshot

/-- Whether an encoding shows where it ends: if what is written of two values that fit starts the same
bytes, it is the same. -/
def SelfDelimiting (encode : α → Bytes) (fits : α → Prop) : Prop :=
  ∀ a b, fits a → fits b → ∀ rest rest', encode a ++ rest = encode b ++ rest' →
    encode a = encode b

theorem selfDelimiting_word : SelfDelimiting word fun _ => True := by
  intro a b _ _ rest rest' heq
  exact List.append_inj_left heq (by rw [length_word, length_word])

/-- Nothing follows an encoding where what it starts is the encoding of a value. -/
theorem SelfDelimiting.eq_nil_of_append {encode : α → Bytes} {fits : α → Prop}
    (h : SelfDelimiting encode fits) {a b : α} (ha : fits a) (hb : fits b) {rest : Bytes}
    (heq : encode a ++ rest = encode b) : rest = [] := by
  have hsame := h a b ha hb rest [] (by rw [heq, List.append_nil])
  rw [hsame] at heq
  exact List.append_right_eq_self.mp heq

theorem selfDelimiting_string : SelfDelimiting encodeString Fits := by
  intro s t hs ht rest rest' heq
  rw [inverts_string.eq_of_append hs ht heq]

section

variable {encode : α → Bytes} {fits : α → Prop}

theorem SelfDelimiting.pair {encode' : β → Bytes} {fits' : β → Prop}
    (h : SelfDelimiting encode fits) (h' : SelfDelimiting encode' fits') (first : γ → α)
    (second : γ → β) :
    SelfDelimiting (fun c => encode (first c) ++ encode' (second c))
      (fun c => fits (first c) ∧ fits' (second c)) := by
  intro c d hc hd rest rest' heq
  simp only [List.append_assoc] at heq ⊢
  have hfirst := h _ _ hc.1 hd.1 _ _ heq
  rw [hfirst] at heq
  rw [hfirst, h' _ _ hc.2 hd.2 _ _ (List.append_cancel_left heq)]

theorem SelfDelimiting.flatMap (h : SelfDelimiting encode fits) {as bs : List α}
    (hlength : as.length = bs.length) (has : ∀ a ∈ as, fits a) (hbs : ∀ b ∈ bs, fits b)
    {rest rest' : Bytes} (heq : as.flatMap encode ++ rest = bs.flatMap encode ++ rest') :
    as.flatMap encode = bs.flatMap encode := by
  induction as generalizing bs with
  | nil =>
    obtain rfl := List.length_eq_zero_iff.mp hlength.symm
    rfl
  | cons a as ih =>
    cases bs with
    | nil => cases hlength
    | cons b bs =>
      obtain ⟨ha, has⟩ := List.forall_mem_cons.mp has
      obtain ⟨hb, hbs⟩ := List.forall_mem_cons.mp hbs
      simp only [List.flatMap_cons, List.append_assoc] at heq ⊢
      have hhead := h a b ha hb _ _ heq
      rw [hhead] at heq
      rw [hhead, ih (Nat.succ.inj hlength) has hbs (List.append_cancel_left heq)]

theorem SelfDelimiting.many (h : SelfDelimiting encode fits) :
    SelfDelimiting (fun values : List α => word values.length ++ values.flatMap encode)
      (fun values => values.length < wordCount ∧ ∀ a ∈ values, fits a) := by
  intro as bs has hbs rest rest' heq
  simp only [List.append_assoc] at heq ⊢
  have hlength := inverts_word.eq_of_append has.1 hbs.1 heq
  rw [hlength] at heq ⊢
  rw [h.flatMap hlength has.2 hbs.2 (List.append_cancel_left heq)]

end

theorem selfDelimiting_entry :
    SelfDelimiting encodeEntry fun entry => Fits entry.callee := by
  have h := selfDelimiting_string.pair selfDelimiting_word CallEntry.callee CallEntry.level
  exact fun a b ha hb => h a b ⟨ha, trivial⟩ ⟨hb, trivial⟩

theorem selfDelimiting_row : SelfDelimiting encodeRow fun row =>
    Fits row.1 ∧ row.2.length < wordCount ∧ ∀ entry ∈ row.2, Fits entry.callee := by
  rw [encodeRow_eq]
  exact selfDelimiting_string.pair selfDelimiting_entry.many Prod.fst Prod.snd

theorem eq_encode_of_decode {index found : CallIndex} (hindex : HasWordLengths index)
    {front : Bytes} (h : decode front = .ok found) (hfront : front <+: encode index) :
    front = encode index := by
  obtain ⟨tail, htail⟩ := hfront
  cases hrows : decodeMany decodeRow front with
  | error defect =>
    rw [decode, hrows] at h
    cases h
  | ok result =>
    obtain ⟨rows, rest⟩ := result
    obtain ⟨⟨hlength, hkept⟩, rfl⟩ := inverts_row.many.eq_append hrows
    have hfits : ∀ row ∈ rows, Fits row.1 ∧ row.2.length < wordCount ∧
        ∀ entry ∈ row.2, Fits entry.callee := by
      intro row hrow
      obtain ⟨hroot, hentries, hentry⟩ := hkept row hrow
      exact ⟨hroot.1, hentries, fun entry he => (hentry entry he).1.1⟩
    have hsize : index.toList.length < wordCount := by
      rw [CallIndex.length_toList]
      exact hindex.1
    have hwritten : word rows.length ++ rows.flatMap encodeRow ++ (rest ++ tail) =
        word index.toList.length ++ index.toList.flatMap encodeRow := by
      rw [← List.append_assoc, htail, encode, CallIndex.length_toList]
    have hnil := selfDelimiting_row.many.eq_nil_of_append ⟨hlength, hfits⟩ ⟨hsize, hindex.2⟩ hwritten
    rw [← htail, List.append_assoc _ rest tail, hnil, (List.append_eq_nil_iff.mp hnil).1]

end Snapshot

/-! ### Files -/

namespace Artifact

variable {a : Artifact α} {bytes : Bytes}

/-- Whether a file that holds the given bytes is refused: they are not decoded, and where the file is
loaded, it is an invalid cache, in place of which nothing is computed or written. -/
def Refuses (a : Artifact α) (bytes : Bytes) : Prop :=
  ∃ reason, a.codec.decode bytes = .error reason ∧
    ∀ w : World, w.files.read a.path = .ok bytes →
      (w.run a.load).1 = .error (.invalidCache a.path reason) ∧
      ∀ compute : Task (StateM World) α,
        (w.run (a.loadOrCompute compute)).1 = .error (.invalidCache a.path reason) ∧
        (w.run (a.loadOrCompute compute)).2.files = w.files

theorem run_loadOrCompute_of_error {w : World} {failure : Failure}
    (h : (w.run a.load).1 = .error failure) (compute : Task (StateM World) α) :
    w.run (a.loadOrCompute compute) = (.error failure, (w.run a.load).2) := by
  unfold loadOrCompute loadOrComputeWith
  rw [World.run_bind, World.run_bind]
  cases hload : w.run a.load with
  | mk result w' =>
    rw [hload] at h
    dsimp only at h
    rw [h]

theorem refuses_of_not_decoded (h : ∀ value, a.codec.decode bytes ≠ .ok value) :
    a.Refuses bytes := by
  cases hdecode : a.codec.decode bytes with
  | ok value => exact absurd hdecode (h value)
  | error reason =>
    refine ⟨reason, hdecode, fun w hread => ?_⟩
    obtain ⟨hresult, hfiles⟩ := a.reads_load.run_world w
    have hkept : a.kept w.files = .error (.invalidCache a.path reason) := by
      rw [kept, FileTree.readOr_of_read hread, held, hdecode]
    rw [hkept] at hresult
    refine ⟨hresult, fun compute => ?_⟩
    rw [run_loadOrCompute_of_error hresult]
    exact ⟨rfl, hfiles⟩

end Artifact

/-- What is written of a list of methods or of an index is refused wherever it is cut short. -/
theorem cutShort_refused (tests : List Method) {index : CallIndex}
    (hindex : Snapshot.HasWordLengths index) (path : String) (front : Bytes) :
    (MethodList.codec.CutShort tests front →
      Artifact.Refuses ⟨path, MethodList.codec⟩ front) ∧
    (Snapshot.codec.CutShort index front → Artifact.Refuses ⟨path, Snapshot.codec⟩ front) := by
  constructor
  · rintro ⟨hstart, hcut⟩
    refine Artifact.refuses_of_not_decoded fun ms hms => hcut ?_
    exact MethodList.eq_encode_of_decode (mapError_eq_ok_iff.mp hms) hstart
  · rintro ⟨hstart, hcut⟩
    refine Artifact.refuses_of_not_decoded fun found hfound => hcut ?_
    exact Snapshot.eq_encode_of_decode hindex (mapError_eq_ok_iff.mp hfound) hstart

/-- The first byte of a list, and a snapshot without its last byte. -/
def cutFiles : FileTree :=
  (FileTree.empty.put ["work", "tests.json"] (.file [0x5B])).put ["work", "index.bin"]
    (.file (Snapshot.encode Snapshot.withMalformed).dropLast)

theorem cutShort_dropLast (index : CallIndex) :
    Snapshot.codec.CutShort index (Snapshot.encode index).dropLast := by
  refine ⟨List.dropLast_prefix _, fun heq => ?_⟩
  have hlength := congrArg List.length heq
  rw [Snapshot.codec_encode, Snapshot.encode, List.length_dropLast, List.length_append,
    length_word] at hlength
  omega

theorem cutShort_refused_at_ends :
    Snapshot.HasWordLengths Snapshot.withMalformed ∧
    (∃ reason, ((World.ofFiles cutFiles).run (Artifact.load ⟨"tests.json", MethodList.codec⟩)).1 =
      .error (.invalidCache "tests.json" reason)) ∧
    (∃ reason, ((World.ofFiles cutFiles).run (Artifact.load ⟨"index.bin", Snapshot.codec⟩)).1 =
      .error (.invalidCache "index.bin" reason)) := by
  have hlengths := Snapshot.hasWordLengths_withMalformed
  have hlist : MethodList.codec.CutShort [.make "a.FooTest" "testRun" []] [0x5B] := by
    unfold Codec.CutShort
    decide +kernel
  obtain ⟨reason, -, htests⟩ := (cutShort_refused _ hlengths "tests.json" _).1 hlist
  obtain ⟨reason', -, hindex⟩ :=
    (cutShort_refused [] hlengths "index.bin" _).2 (cutShort_dropLast _)
  exact ⟨hlengths, ⟨reason, (htests (.ofFiles cutFiles) (by decide +kernel)).1⟩,
    ⟨reason', (hindex (.ofFiles cutFiles) (by decide +kernel)).1⟩⟩

end CallDepth
