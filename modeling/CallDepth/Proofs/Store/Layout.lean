import Mathlib.Data.List.Nodup
import CallDepth.Proofs.Except
import CallDepth.Proofs.Store.Malformed

/-!
# The layout of snapshots

What the bytes of a snapshot are, told without a reader: a count of rows and the rows, where a row is
the name of a root, a count of entries and the entries. Reading finds the layout that starts the bytes
that it is given, of which there is at most one, and fails if there is none. What it gives can be
written again, and the same bytes come of it exactly if the rows are in canonical order.
-/

namespace CallDepth

namespace CallIndex

/-- For each root an index made of rows holds the last of them. -/
theorem get?_ofList (rows : List (String × List CallEntry)) (root : String) :
    (ofList rows).get? root = (rows.reverse.find? fun row => row.1 = root).map Prod.snd := by
  induction rows using List.reverseRecOn with
  | nil => exact get?_empty root
  | append_singleton rows row ih =>
    rw [ofList_append_singleton, get?_insert, ih, List.reverse_append, List.reverse_singleton,
      List.singleton_append, List.find?_cons]
    by_cases hroot : row.1 = root
    · simp [hroot]
    · simp [hroot]

theorem toList_ofList_of_pairwise {rows : List (String × List CallEntry)}
    (hrows : rows.Pairwise fun row next => compare row.1 next.1 = .lt) :
    (ofList rows).toList = rows := by
  have hroots := nodup_of_pairwise hrows
  have hmem : ∀ row, row ∈ (ofList rows).toList ↔ row ∈ rows := fun row =>
    ⟨mem_of_mem_toList_ofList, fun h => mem_toList_iff.mpr (get?_ofList_of_mem hroots h)⟩
  have hperm := (List.perm_ext_iff_of_nodup (.of_map Prod.fst (nodup_roots _))
    (.of_map Prod.fst hroots)).mpr hmem
  -- of two rows, only one comes before the other
  have hasymm : ∀ a b : String × List CallEntry, compare a.1 b.1 = .lt → ¬ compare b.1 a.1 = .lt :=
    fun a b => Std.OrientedCmp.not_lt_of_lt
  exact hperm.eq_of_pairwise (fun a b _ _ hab hba => absurd hba (hasymm a b hab))
    (pairwise_toList _) hrows

end CallIndex

namespace Snapshot

open Text

variable {α : Type}

/-! ### What lies in a snapshot -/

/-- Whether bytes are a number: eight of them, the lowest digit to the base 256 first. -/
def LaysWord (n : Nat) (p : Bytes) : Prop := p.length = 8 ∧ ofDigits256 p = n

/-- Whether bytes are the name of a method: the number of bytes of its text, and these, where the text
is one that the grammar of methods writes. -/
def LaysName (name : String) (p : Bytes) : Prop :=
  ∃ size text, LaysWord text.length size ∧ text = Utf8.ofString name ∧
    (∃ f : Method.Form, f.text = name.toList) ∧ p = size ++ text

/-- Whether bytes are values one after the other. -/
inductive LaysRun (lays : α → Bytes → Prop) : List α → Bytes → Prop where
  | nil : LaysRun lays [] []
  | cons {a : α} {as : List α} {p q : Bytes} (ha : lays a p) (has : LaysRun lays as q) :
      LaysRun lays (a :: as) (p ++ q)

/-- Whether bytes are a count and as many values. -/
def LaysMany (lays : α → Bytes → Prop) (values : List α) (p : Bytes) : Prop :=
  ∃ count run, LaysWord values.length count ∧ LaysRun lays values run ∧ p = count ++ run

def LaysEntry (entry : CallEntry) (p : Bytes) : Prop :=
  ∃ name level, LaysName entry.callee name ∧ LaysWord entry.level level ∧ p = name ++ level

def LaysRow (row : String × List CallEntry) (p : Bytes) : Prop :=
  ∃ name entries, LaysName row.1 name ∧ LaysMany LaysEntry row.2 entries ∧ p = name ++ entries

/-! ### Layouts and encodings -/

theorem laysWord_iff {n : Nat} {p : Bytes} : LaysWord n p ↔ n < wordCount ∧ p = word n := by
  constructor
  · rintro ⟨hlength, rfl⟩
    have hlt := ofDigits256_lt p
    have hword := digits256_ofDigits256 p
    rw [hlength] at hlt hword
    exact ⟨by simpa [wordCount] using hlt, hword.symm⟩
  · rintro ⟨hlt, rfl⟩
    exact ⟨length_word n, ofDigits256_digits256 8 n (by simpa [wordCount] using hlt)⟩

theorem laysName_iff {name : String} {p : Bytes} :
    LaysName name p ↔ Names name ∧ p = encodeString name := by
  rw [Names, Method.isSome_parse?_iff]
  constructor
  · rintro ⟨size, text, hsize, rfl, hform, rfl⟩
    obtain ⟨hfits, rfl⟩ := laysWord_iff.mp hsize
    exact ⟨⟨hfits, hform⟩, rfl⟩
  · rintro ⟨⟨hfits, hform⟩, rfl⟩
    exact ⟨_, _, laysWord_iff.mpr ⟨hfits, rfl⟩, rfl, hform, rfl⟩

section

variable {lays : α → Bytes → Prop} {encode : α → Bytes} {valid : α → Prop}

theorem laysRun_iff (h : ∀ a p, lays a p ↔ valid a ∧ p = encode a) {values : List α} {p : Bytes} :
    LaysRun lays values p ↔ (∀ a ∈ values, valid a) ∧ p = values.flatMap encode := by
  constructor
  · intro hrun
    induction hrun with
    | nil => exact ⟨nofun, rfl⟩
    | cons ha _ ih =>
      obtain ⟨hvalid, rfl⟩ := (h _ _).mp ha
      obtain ⟨hmore, rfl⟩ := ih
      exact ⟨List.forall_mem_cons.mpr ⟨hvalid, hmore⟩, rfl⟩
  · rintro ⟨hvalid, rfl⟩
    induction values with
    | nil => exact .nil
    | cons a values ih =>
      obtain ⟨ha, hvalues⟩ := List.forall_mem_cons.mp hvalid
      exact .cons ((h _ _).mpr ⟨ha, rfl⟩) (ih hvalues)

theorem laysMany_iff (h : ∀ a p, lays a p ↔ valid a ∧ p = encode a) {values : List α} {p : Bytes} :
    LaysMany lays values p ↔ (values.length < wordCount ∧ ∀ a ∈ values, valid a) ∧
      p = word values.length ++ values.flatMap encode := by
  constructor
  · rintro ⟨count, run, hcount, hrun, rfl⟩
    obtain ⟨hlength, rfl⟩ := laysWord_iff.mp hcount
    obtain ⟨hvalues, rfl⟩ := (laysRun_iff h).mp hrun
    exact ⟨⟨hlength, hvalues⟩, rfl⟩
  · rintro ⟨⟨hlength, hvalues⟩, rfl⟩
    exact ⟨_, _, laysWord_iff.mpr ⟨hlength, rfl⟩, (laysRun_iff h).mpr ⟨hvalues, rfl⟩, rfl⟩

end

theorem laysEntry_iff (entry : CallEntry) (p : Bytes) :
    LaysEntry entry p ↔ KeepsEntry entry ∧ p = encodeEntry entry := by
  constructor
  · rintro ⟨name, level, hname, hlevel, rfl⟩
    obtain ⟨hcallee, rfl⟩ := laysName_iff.mp hname
    obtain ⟨hlt, rfl⟩ := laysWord_iff.mp hlevel
    exact ⟨⟨hcallee, hlt⟩, rfl⟩
  · rintro ⟨⟨hname, hlevel⟩, rfl⟩
    exact ⟨_, _, laysName_iff.mpr ⟨hname, rfl⟩, laysWord_iff.mpr ⟨hlevel, rfl⟩, rfl⟩

theorem laysRow_iff (row : String × List CallEntry) (p : Bytes) :
    LaysRow row p ↔ KeepsRow row ∧ p = encodeRow row := by
  rw [encodeRow_eq]
  constructor
  · rintro ⟨name, entries, hname, hentries, rfl⟩
    obtain ⟨hroot, rfl⟩ := laysName_iff.mp hname
    obtain ⟨hkept, rfl⟩ := (laysMany_iff laysEntry_iff).mp hentries
    exact ⟨⟨hroot, hkept⟩, rfl⟩
  · rintro ⟨⟨hname, hentries⟩, rfl⟩
    exact ⟨_, _, laysName_iff.mpr ⟨hname, rfl⟩, (laysMany_iff laysEntry_iff).mpr ⟨hentries, rfl⟩,
      rfl⟩

/-! ### Reading a layout -/

theorem decode_eq_ok_iff {bs : Bytes} {index : CallIndex} :
    decode bs = .ok index ↔
      ∃ rows p, p <+: bs ∧ LaysMany LaysRow rows p ∧ index = CallIndex.ofList rows := by
  simp only [laysMany_iff laysRow_iff]
  constructor
  · intro h
    cases hrows : decodeMany decodeRow bs with
    | error defect =>
      rw [decode, hrows] at h
      cases h
    | ok result =>
      obtain ⟨rows, rest⟩ := result
      obtain ⟨hkept, rfl⟩ := inverts_row.many.eq_append hrows
      rw [decode, hrows] at h
      cases h
      exact ⟨rows, _, List.prefix_append .., ⟨hkept, rfl⟩, rfl⟩
  · rintro ⟨rows, p, ⟨rest, rfl⟩, ⟨hkept, rfl⟩, rfl⟩
    rw [decode, inverts_row.many.decode_append hkept]
    rfl

theorem keeps_ofList {rows : List (String × List CallEntry)} (hlength : rows.length < wordCount)
    (hrows : ∀ row ∈ rows, KeepsRow row) : Keeps (CallIndex.ofList rows) := by
  refine ⟨Nat.lt_of_le_of_lt (CallIndex.size_ofList_le rows) hlength, fun row hrow => ?_⟩
  exact hrows row (CallIndex.mem_of_mem_toList_ofList hrow)

/-- The rows of a snapshot are written as they lie there exactly if they are in canonical order, with
one row for each root. -/
theorem encode_ofList_eq_iff {rows : List (String × List CallEntry)} {p : Bytes}
    (h : LaysMany LaysRow rows p) :
    encode (CallIndex.ofList rows) = p ↔
      rows.Pairwise fun row next => compare row.1 next.1 = .lt := by
  obtain ⟨hkept, rfl⟩ := (laysMany_iff laysRow_iff).mp h
  rw [encode, ← CallIndex.length_toList]
  constructor
  · intro heq
    obtain ⟨hsize, hindex⟩ := keeps_ofList hkept.1 hkept.2
    rw [← CallIndex.length_toList] at hsize
    have hsame := congrArg (· ++ []) heq
    have hrows := inverts_row.many.eq_of_append ⟨hsize, hindex⟩ hkept hsame
    rw [← hrows]
    exact CallIndex.pairwise_toList _
  · intro hrows
    rw [CallIndex.toList_ofList_of_pairwise hrows]

/-! ### Counts and lengths beyond the end -/

/-- Whether bytes are a count and some of the values that it counts, so that another comes next. -/
def LaysSome (lays : α → Bytes → Prop) (p : Bytes) : Prop :=
  ∃ n values count run, LaysWord n count ∧ values.length < n ∧ LaysRun lays values run ∧
    p = count ++ run

/-- Whether a snapshot that starts with the bytes goes on with a count or with the length of a name. -/
inductive SizeNext : Bytes → Prop where
  | rows : SizeNext []
  | root {p : Bytes} (hrows : LaysSome LaysRow p) : SizeNext p
  | entries {p q : Bytes} {root : String} (hrows : LaysSome LaysRow p) (hroot : LaysName root q) :
      SizeNext (p ++ q)
  | callee {p q r : Bytes} {root : String} (hrows : LaysSome LaysRow p) (hroot : LaysName root q)
      (hentries : LaysSome LaysEntry r) : SizeNext (p ++ (q ++ r))

def Fails (decode : Decoder α) (bs : Bytes) : Prop := ∃ defect, decode bs = .error defect

theorem Fails.first {β : Type} {decode : Decoder α} {bs : Bytes} (h : Fails decode bs)
    (next : α × Bytes → Except Defect β) : ∃ defect, (decode bs >>= next) = .error defect := by
  obtain ⟨defect, hdefect⟩ := h
  exact ⟨defect, by rw [hdefect]; rfl⟩

section

variable {decode : Decoder α} {lays : α → Bytes → Prop} {encode : α → Bytes} {valid : α → Prop}

theorem Fails.many (h : Inverts decode encode valid)
    (hlays : ∀ a p, lays a p ↔ valid a ∧ p = encode a) {p bs : Bytes} (hp : LaysSome lays p)
    (hfails : Fails decode bs) : Fails (decodeMany decode) (p ++ bs) := by
  obtain ⟨n, values, count, run, hcount, hlt, hrun, rfl⟩ := hp
  obtain ⟨hn, rfl⟩ := laysWord_iff.mp hcount
  obtain ⟨hvalues, rfl⟩ := (laysRun_iff hlays).mp hrun
  obtain ⟨defect, hdefect⟩ := hfails
  obtain ⟨more, rfl⟩ : ∃ more, n = values.length + (more + 1) :=
    ⟨n - values.length - 1, by omega⟩
  refine ⟨defect, ?_⟩
  simp only [decodeMany, List.append_assoc, inverts_word.decode_append hn, bind, Except.bind]
  rw [h.manyFrom_append hvalues, decodeManyFrom, hdefect]

theorem length_le_length_flatMap (hsize : ∀ a, (encode a).length ≠ 0) (values : List α) :
    values.length ≤ (values.flatMap encode).length := by
  induction values with
  | nil => exact Nat.le_refl 0
  | cons a values ih =>
    have ha := hsize a
    rw [List.flatMap_cons, List.length_append, List.length_cons]
    omega

/-- No more values are read than there are bytes, whatever the count in front of them says. -/
theorem fails_many_of_length_lt (h : Inverts decode encode valid)
    (hsize : ∀ a, (encode a).length ≠ 0) {n : Nat} (hn : n < wordCount) {bs : Bytes}
    (hlt : bs.length < n) : Fails (decodeMany decode) (word n ++ bs) := by
  cases hfound : decodeMany decode (word n ++ bs) with
  | error defect => exact ⟨defect, hfound⟩
  | ok result =>
    obtain ⟨values, rest⟩ := result
    obtain ⟨⟨hlength, -⟩, heq⟩ := h.many.eq_append hfound
    rw [List.append_assoc] at heq
    obtain rfl := inverts_word.eq_of_append hn hlength heq
    rw [List.append_cancel_left heq, List.length_append] at hlt
    have hle := length_le_length_flatMap hsize values
    omega

end

theorem length_encodeEntry_ne_zero (entry : CallEntry) : (encodeEntry entry).length ≠ 0 := by
  rw [encodeEntry, List.length_append, length_word]
  omega

theorem length_encodeRow_ne_zero (row : String × List CallEntry) : (encodeRow row).length ≠ 0 := by
  rw [encodeRow, List.length_append, List.length_append, length_word]
  omega

theorem fails_method {n : Nat} (hn : n < wordCount) {rest : Bytes} (hlt : rest.length < n) :
    Fails decodeMethod (word n ++ rest) := by
  have hstring : Fails decodeString (word n ++ rest) := by
    refine ⟨.cutString, ?_⟩
    simp only [decodeString, inverts_word.decode_append hn, bind, Except.bind,
      takeExactly?_of_length_lt hlt]
  exact hstring.first _

theorem fails_row {root : String} {p bs : Bytes} (hroot : LaysName root p)
    (h : Fails (decodeMany decodeEntry) bs) : Fails decodeRow (p ++ bs) := by
  obtain ⟨hname, rfl⟩ := laysName_iff.mp hroot
  rw [Fails, decodeRow, inverts_method.decode_append hname]
  exact h.first _

/-- A count or a length that is greater than the number of bytes after it is refused, wherever in a
snapshot it lies. -/
theorem decode_fails_of_size {front size rest : Bytes} {n : Nat} (hfront : SizeNext front)
    (hsize : LaysWord n size) (hlt : rest.length < n) :
    ∃ defect, decode (front ++ (size ++ rest)) = .error defect := by
  obtain ⟨hn, rfl⟩ := laysWord_iff.mp hsize
  refine Fails.first ?_ _
  cases hfront with
  | rows => exact fails_many_of_length_lt inverts_row length_encodeRow_ne_zero hn hlt
  | root hrows =>
    exact Fails.many inverts_row laysRow_iff hrows ((fails_method hn hlt).first _)
  | entries hrows hroot =>
    rw [List.append_assoc]
    refine Fails.many inverts_row laysRow_iff hrows (fails_row hroot ?_)
    exact fails_many_of_length_lt inverts_entry length_encodeEntry_ne_zero hn hlt
  | callee hrows hroot hentries =>
    rw [List.append_assoc, List.append_assoc]
    refine Fails.many inverts_row laysRow_iff hrows (fails_row hroot ?_)
    exact Fails.many inverts_entry laysEntry_iff hentries ((fails_method hn hlt).first _)

/-! ### Arbitrary bytes -/

theorem layout_unique {bs p q : Bytes} {rows rows' : List (String × List CallEntry)}
    (hp : p <+: bs) (hrows : LaysMany LaysRow rows p) (hq : q <+: bs)
    (hrows' : LaysMany LaysRow rows' q) : rows = rows' ∧ p = q := by
  obtain ⟨hkept, rfl⟩ := (laysMany_iff laysRow_iff).mp hrows
  obtain ⟨hkept', rfl⟩ := (laysMany_iff laysRow_iff).mp hrows'
  obtain ⟨rest, rfl⟩ := hp
  obtain ⟨rest', heq⟩ := hq
  obtain rfl := inverts_row.many.eq_of_append hkept' hkept heq
  exact ⟨rfl, rfl⟩

/-- What is read of any bytes. They hold an index exactly if a layout of rows starts them, which at
most one does; the index is made of these rows one after the other, so that of several rows of a root
the last stays. It can be written and read again, and the layout is what is written exactly if its
rows are in strictly ascending canonical order. A count or a length that is greater than the number of
bytes after it makes the reading fail. -/
theorem decode_finds_layout (bs : Bytes) :
    (∀ index, codec.decode bs = .ok index ↔
      ∃ rows p, p <+: bs ∧ LaysMany LaysRow rows p ∧ index = CallIndex.ofList rows) ∧
    (∀ rows p rows' p', p <+: bs → LaysMany LaysRow rows p → p' <+: bs →
      LaysMany LaysRow rows' p' → rows = rows' ∧ p = p') ∧
    (∀ rows p, p <+: bs → LaysMany LaysRow rows p →
      (∀ root, (CallIndex.ofList rows).get? root =
        (rows.reverse.find? fun row => row.1 = root).map Prod.snd) ∧
      codec.decode (codec.encode (CallIndex.ofList rows)) = .ok (CallIndex.ofList rows) ∧
      (codec.encode (CallIndex.ofList rows) = p ↔
        rows.Pairwise fun row next => compare row.1 next.1 = .lt)) ∧
    ∀ front size rest n, bs = front ++ (size ++ rest) → SizeNext front → LaysWord n size →
      rest.length < n → ∃ reason, codec.decode bs = .error reason := by
  simp only [codec_decode, codec_encode]
  refine ⟨fun index => ?_, fun _ _ _ _ => layout_unique, fun rows p _ hrows => ?_, ?_⟩
  · exact mapError_eq_ok_iff.trans decode_eq_ok_iff
  · obtain ⟨hkept, -⟩ := (laysMany_iff laysRow_iff).mp hrows
    refine ⟨CallIndex.get?_ofList rows, ?_, encode_ofList_eq_iff hrows⟩
    rw [decode_encode (keeps_ofList hkept.1 hkept.2)]
    rfl
  · rintro front size rest n rfl hfront hsize hlt
    obtain ⟨defect, hdefect⟩ := decode_fails_of_size hfront hsize hlt
    exact ⟨defect.message, by rw [hdefect]; rfl⟩

/-- Three rows, out of order, of which the first and the last have the same root. -/
def repeatedRows : List (String × List CallEntry) :=
  [("B:b()", [⟨"C:c(int)", 1⟩]), ("A:a()", []), ("B:b()", [])]

theorem laysMany_repeatedRows : LaysMany LaysRow repeatedRows
    (word repeatedRows.length ++ repeatedRows.flatMap encodeRow) := by
  refine (laysMany_iff laysRow_iff).mpr ⟨?_, rfl⟩
  unfold KeepsRow KeepsEntry Names Fits
  decide +kernel

theorem decode_finds_repeated_rows :
    LaysMany LaysRow repeatedRows (word repeatedRows.length ++ repeatedRows.flatMap encodeRow) ∧
    codec.decode (word repeatedRows.length ++ repeatedRows.flatMap encodeRow ++ [0, 1]) =
      .ok (CallIndex.ofList repeatedRows) ∧
    (CallIndex.ofList repeatedRows).get? "B:b()" = some [] ∧
    codec.encode (CallIndex.ofList repeatedRows) ≠
      word repeatedRows.length ++ repeatedRows.flatMap encodeRow ∧
    SizeNext [] ∧ LaysWord (Nat.pow 2 64 - 1) (List.replicate 8 0xFF) ∧
    ∃ reason, codec.decode (List.replicate 8 0xFF ++ [0, 0]) = .error reason := by
  have hrows := laysMany_repeatedRows
  obtain ⟨hread, -, hwrite, -⟩ := decode_finds_layout
    (word repeatedRows.length ++ repeatedRows.flatMap encodeRow ++ [0, 1])
  obtain ⟨hlast, -, horder⟩ := hwrite _ _ (List.prefix_append ..) hrows
  have hgreatest : LaysWord (Nat.pow 2 64 - 1) (List.replicate 8 0xFF) := by
    unfold LaysWord
    decide +kernel
  obtain ⟨-, -, -, hsize⟩ := decode_finds_layout (List.replicate 8 0xFF ++ [0, 0])
  refine ⟨hrows, (hread _).mpr ⟨_, _, List.prefix_append .., hrows, rfl⟩, (hlast _).trans rfl,
    fun heq => ?_, .rows, hgreatest, hsize [] _ _ _ rfl .rows hgreatest (by decide +kernel)⟩
  have hascending : ¬ repeatedRows.Pairwise fun row next => compare row.1 next.1 = .lt := by
    decide +kernel
  exact hascending (horder.mp heq)

end Snapshot

end CallDepth
